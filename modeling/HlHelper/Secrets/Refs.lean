import HlHelper.Library.PrefixFree
import HlHelper.Secrets.Broker
import Mathlib.Data.List.TakeWhile

/-! `SecretRef.parse` over `urlparse`, against `str(ref)`: which parts of an accepted string are
dropped. -/

namespace HlHelper.Secrets

open HlHelper.Library

local instance (priority := 2000) decidableOfText {p : Char → Prop} [DecidablePred p]
    (text : List Char) :
    Decidable (∀ c ∈ text, p c) := List.decidableBAll _ _

section Urls

def upTo (marks : List Char) (text : Name) : Name := text.takeWhile fun c => c ∉ marks

def onward (marks : List Char) (text : Name) : Name := text.dropWhile fun c => c ∉ marks

structure SplitResult where
  scheme : Name
  netloc : Name
  path : Name
  query : Name
  fragment : Name
  deriving DecidableEq, Repr

def isC0OrSpace (c : Char) : Bool := c.toNat ≤ 32

/-- The characters that `urlsplit` removes wherever they are. -/
def isUnsafe (c : Char) : Bool := c ∈ ['\t', '\r', '\n']

def cleaned (url : Name) : Name := (url.dropWhile isC0OrSpace).filter fun c => !isUnsafe c

def schemeChar (c : Char) : Bool := c.isAlphanum || c ∈ ['+', '-', '.']

/-- The scheme, in lower case, and what is behind its colon. -/
def splitScheme (url : Name) : Name × Name :=
  let head := upTo [':'] url
  match onward [':'] url with
  | [] => ([], url)
  | _ :: rest =>
    if head.head?.any Char.isAlpha && head.all schemeChar then (head.map Char.toLower, rest)
    else ([], url)

def splitNetloc (url : Name) : Name × Name :=
  if ['/', '/'].isPrefixOf url then
    (upTo ['/', '?', '#'] (url.drop 2), onward ['/', '?', '#'] (url.drop 2))
  else ([], url)

/-- `urlparse`; what the checks of brackets and of NFKC in the `netloc` raise is a parameter. A
scheme other than those with parameters keeps a semicolon in its path. -/
def urlparse (raises : Name → Option String) (url : Name) : Except String SplitResult :=
  let (scheme, rest) := splitScheme (cleaned url)
  let (netloc, rest) := splitNetloc rest
  match raises netloc with
  | some error => .error error
  | none =>
    let front := upTo ['#'] rest
    .ok ⟨scheme, netloc, upTo ['?'] front, (onward ['?'] front).drop 1,
      (onward ['#'] rest).drop 1⟩

end Urls

namespace SecretRef

def percentEncoded (path : Name) : Bool :=
  path.tails.any fun rest =>
    rest.take 2 = ['%', '2'] && rest[2]?.any fun c => c ∈ ['e', 'E', 'f', 'F']

def secretScheme : Name := ['s', 'e', 'c', 'r', 'e', 't']

def strippedPath (parsed : SplitResult) : Name := parsed.path.dropWhile (· = '/')

def refusal (parsed : SplitResult) : Option String :=
  let path := strippedPath parsed
  let segments := split path
  if parsed.scheme ≠ secretScheme then
    some ("Invalid scheme; expected 'secret://', got '" ++ String.ofList parsed.scheme ++ "://'")
  else if parsed.netloc = [] then some "Missing backend in URI"
  else if path = [] then some "Missing path in URI"
  else if ['/', '/'].isPrefixOf parsed.path then
    some "Invalid path: path traversal detected (leading slash)"
  else if ['.', '.'] ∈ segments ∨ ['.'] ∈ segments then
    some "Invalid path: path traversal detected (.. or . segments)"
  else if [] ∈ segments then some "Invalid path: path traversal detected (empty segments)"
  else if percentEncoded path then some "Invalid path: path traversal detected (percent-encoded)"
  else none

def ofParsed (parsed : SplitResult) : SecretRef :=
  ⟨parsed.netloc, strippedPath parsed, if parsed.fragment = [] then none else some parsed.fragment⟩

def parse (raises : Name → Option String) (uri : Name) : Except String SecretRef :=
  (urlparse raises uri).bind fun parsed =>
    match refusal parsed with
    | some error => .error error
    | none => .ok (ofParsed parsed)

end SecretRef

def LowerScheme (uri : Name) : Prop := ∀ c ∈ upTo [':'] uri, c.isUpper = false

instance (uri : Name) : Decidable (LowerScheme uri) :=
  inferInstanceAs (Decidable (∀ c ∈ upTo [':'] uri, _))

/-- Nothing that `urlparse` strips or removes, and no query. -/
structure Lossless (uri : Name) : Prop where
  start : ∀ c ∈ uri.head?, isC0OrSpace c = false
  safe : ∀ c ∈ uri, isUnsafe c = false
  query : '?' ∉ upTo ['#'] uri

def Accepted (raises : Name → Option String) (uri : Name) : Prop :=
  ∃ parsed, urlparse raises uri = .ok parsed ∧ SecretRef.refusal parsed = none

/-- The ref, if there is one, prints as the string, or without an empty fragment of it. -/
def RoundTrips (raises : Name → Option String) (uri : Name) : Prop :=
  ∀ ref, SecretRef.parse raises uri = .ok ref → ref.text = uri ∨ ref.text ++ ['#'] = uri

section Marks

variable {marks : List Char} {text front back : Name}

theorem upTo_onward (marks : List Char) (text : Name) :
    upTo marks text ++ onward marks text = text :=
  List.takeWhile_append_dropWhile

theorem upTo_plain : ∀ c ∈ upTo marks text, c ∉ marks := by
  intro c member
  have holds := List.mem_takeWhile_imp member
  simpa using holds

theorem onward_delimited : Delimited (· ∈ marks) (onward marks text) := by
  intro c first
  have stops := List.head?_dropWhile_not (fun c => decide (c ∉ marks)) text
  rw [Option.mem_def, onward] at first
  rw [first] at stops
  simpa using stops

theorem upTo_append (plain : ∀ c ∈ front, c ∉ marks) (ends : Delimited (· ∈ marks) back) :
    upTo marks (front ++ back) = front ∧ onward marks (front ++ back) = back := by
  have passes : ∀ c ∈ front, decide (c ∉ marks) = true := fun c member =>
    decide_eq_true (plain c member)
  rw [upTo, onward, List.takeWhile_append_of_pos passes, List.dropWhile_append_of_pos passes]
  cases back with
  | nil => simp
  | cons c back =>
    have stops : c ∈ marks := ends c rfl
    simp [stops]

end Marks

section Cleaned

variable {url : Name}

theorem cleaned_safe : ∀ c ∈ cleaned url, isUnsafe c = false := by
  intro c member
  simpa using (List.mem_filter.mp member).2

theorem cleaned_eq_self (start : ∀ c ∈ url.head?, isC0OrSpace c = false)
    (safe : ∀ c ∈ url, isUnsafe c = false) : cleaned url = url := by
  have kept : url.dropWhile isC0OrSpace = url := by
    cases url with
    | nil => rfl
    | cons c rest => exact List.dropWhile_cons_of_neg (by simp [start c rfl])
  rw [cleaned, kept]
  exact List.filter_eq_self.mpr fun c member => by simp [safe c member]

end Cleaned

section Parts

variable {raises : Name → Option String} {url : Name} {parsed : SplitResult}

theorem splitScheme_named {text : Name} (named : (splitScheme text).1 ≠ []) :
    ∃ rest, text = upTo [':'] text ++ ':' :: rest ∧
      splitScheme text = ((upTo [':'] text).map Char.toLower, rest) ∧
      ∀ c ∈ upTo [':'] text, schemeChar c = true := by
  have parts := upTo_onward [':'] text
  have ends := @onward_delimited [':'] text
  unfold splitScheme at named ⊢
  dsimp only at named ⊢
  generalize onward [':'] text = back at parts ends named
  cases back with
  | nil => exact absurd rfl named
  | cons c rest =>
    obtain rfl := List.mem_singleton.mp (ends c rfl)
    dsimp only at named ⊢
    split at named
    · next letters =>
      refine ⟨rest, parts.symm, if_pos letters, ?_⟩
      exact List.all_eq_true.mp (Bool.and_eq_true_iff.mp letters).2
    · exact absurd rfl named

theorem splitNetloc_named {text : Name} (named : (splitNetloc text).1 ≠ []) :
    ∃ rest, text = '/' :: '/' :: rest ∧
      splitNetloc text = (upTo ['/', '?', '#'] rest, onward ['/', '?', '#'] rest) := by
  unfold splitNetloc at named ⊢
  split at named
  · next slashes =>
    obtain ⟨rest, rfl⟩ := List.isPrefixOf_iff_prefix.mp slashes
    exact ⟨rest, rfl, if_pos slashes⟩
  · exact absurd rfl named

/-- The parts of a cleaned string, as `urlparse` finds them behind a scheme and a `netloc`. -/
structure Parts (url : Name) (parsed : SplitResult) (head query fragment : Name) : Prop where
  whole : url = head ++ ':' :: '/' :: '/' :: (parsed.netloc ++ (parsed.path ++ (query ++ fragment)))
  ahead : upTo [':'] url = head
  scheme : parsed.scheme = head.map Char.toLower
  letters : ∀ c ∈ head, schemeChar c = true
  netloc : ∀ c ∈ parsed.netloc, c ∉ ['/', '?', '#']
  path : ∀ c ∈ parsed.path, c ∉ ['?', '#']
  rooted : Delimited (· ∈ ['/', '?', '#']) (parsed.path ++ (query ++ fragment))
  asked : Delimited (· ∈ ['?']) query
  plain : ∀ c ∈ query, c ∉ ['#']
  marked : Delimited (· ∈ ['#']) fragment
  behind : parsed.fragment = fragment.drop 1

theorem parts_of_urlparse (read : urlparse raises url = .ok parsed)
    (scheme : parsed.scheme ≠ []) (netloc : parsed.netloc ≠ []) :
    raises parsed.netloc = none ∧
      ∃ head query fragment, Parts (cleaned url) parsed head query fragment := by
  unfold urlparse at read
  dsimp only at read
  generalize cleaned url = text at read ⊢
  split at read
  · cases read
  · next silent =>
    cases read
    obtain ⟨rest, whole, split, letters⟩ := splitScheme_named scheme
    rw [split] at netloc silent ⊢
    obtain ⟨tail, rfl, cut⟩ := splitNetloc_named netloc
    rw [cut] at silent ⊢
    have parts := upTo_onward ['/', '?', '#'] tail
    have rooted := @onward_delimited ['/', '?', '#'] tail
    dsimp only at silent ⊢
    generalize onward ['/', '?', '#'] tail = behind at parts rooted ⊢
    have marks := upTo_onward ['#'] behind
    have asks := upTo_onward ['?'] (upTo ['#'] behind)
    have inFront : ∀ c ∈ upTo ['?'] (upTo ['#'] behind), c ∈ upTo ['#'] behind := fun c member =>
      asks ▸ List.mem_append_left _ member
    refine ⟨silent, upTo [':'] text, onward ['?'] (upTo ['#'] behind), onward ['#'] behind, ?_⟩
    constructor
    case whole => rw [← List.append_assoc (upTo ['?'] _), asks, marks, parts, ← whole]
    case ahead => rfl
    case scheme => rfl
    case letters => exact letters
    case netloc => exact upTo_plain
    case path =>
      intro c member
      have first := upTo_plain c member
      have second := upTo_plain c (inFront c member)
      simp only [List.mem_cons, List.not_mem_nil, or_false] at first second ⊢
      exact not_or.mpr ⟨first, second⟩
    case rooted =>
      dsimp only
      rwa [← List.append_assoc, asks, marks]
    case asked => exact onward_delimited
    case plain =>
      intro c member
      exact upTo_plain c (asks ▸ List.mem_append_right _ member)
    case marked => exact onward_delimited
    case behind => rfl

structure Fine (parsed : SplitResult) : Prop where
  scheme : parsed.scheme = SecretRef.secretScheme
  netloc : parsed.netloc ≠ []
  path : SecretRef.strippedPath parsed ≠ []
  single : ¬ ['/', '/'].isPrefixOf parsed.path = true
  dots : ¬ (['.', '.'] ∈ split (SecretRef.strippedPath parsed) ∨
    ['.'] ∈ split (SecretRef.strippedPath parsed))
  full : [] ∉ split (SecretRef.strippedPath parsed)
  literal : ¬ SecretRef.percentEncoded (SecretRef.strippedPath parsed) = true

theorem refusal_eq_none : SecretRef.refusal parsed = none ↔ Fine parsed := by
  unfold SecretRef.refusal
  dsimp only
  constructor
  · intro passes
    split at passes
    · cases passes
    · next scheme =>
      split at passes
      · cases passes
      · next netloc =>
        split at passes
        · cases passes
        · next path =>
          split at passes
          · cases passes
          · next single =>
            split at passes
            · cases passes
            · next dots =>
              split at passes
              · cases passes
              · next full =>
                split at passes
                · cases passes
                · next literal =>
                  exact ⟨not_not.mp scheme, netloc, path, single, dots, full, literal⟩
  · intro fine
    rw [if_neg (not_not.mpr fine.scheme), if_neg fine.netloc, if_neg fine.path, if_neg fine.single,
      if_neg fine.dots, if_neg fine.full, if_neg fine.literal]

theorem parse_eq_ok {ref : SecretRef} : SecretRef.parse raises url = .ok ref ↔
    ∃ parsed, urlparse raises url = .ok parsed ∧ Fine parsed ∧ ref = .ofParsed parsed := by
  unfold SecretRef.parse
  cases read : urlparse raises url with
  | error text => simp [Except.bind]
  | ok parsed =>
    simp only [Except.bind, Except.ok.injEq, exists_eq_left', ← refusal_eq_none]
    cases SecretRef.refusal parsed with
    | some text => simp
    | none => simp [eq_comm]

variable {head query fragment : Name}

section

variable (parts : Parts url parsed head query fragment)
include parts

theorem path_rooted (fine : Fine parsed) : parsed.path = '/' :: SecretRef.strippedPath parsed := by
  have filled := fine.path
  have single := fine.single
  have plain := parts.path
  have rooted := parts.rooted
  unfold SecretRef.strippedPath at filled ⊢
  generalize parsed.path = path at *
  rcases path with _ | ⟨c, rest⟩
  · exact absurd rfl filled
  · have mark := rooted c rfl
    have other := plain c List.mem_cons_self
    have slash : c = '/' := by
      simp only [List.mem_cons, List.not_mem_nil, or_false] at mark other
      exact mark.resolve_right other
    subst slash
    rcases rest with _ | ⟨d, rest⟩
    · exact absurd rfl filled
    · have next : d ≠ '/' := by
        rintro rfl
        exact single rfl
      simp [next]

theorem text_ofParsed (fine : Fine parsed) :
    (SecretRef.ofParsed parsed).text = SecretRef.secretScheme ++ ':' :: '/' :: '/' ::
      (parsed.netloc ++ (parsed.path ++
        if parsed.fragment = [] then [] else '#' :: parsed.fragment)) := by
  have selector : (SecretRef.ofParsed parsed).selector =
      if parsed.fragment = [] then [] else '#' :: parsed.fragment := by
    unfold SecretRef.selector SecretRef.ofParsed
    cases parsed.fragment <;> rfl
  rw [SecretRef.text, selector, path_rooted parts fine]
  simp [SecretRef.ofParsed, SecretRef.scheme, SecretRef.secretScheme]

theorem fragment_cases :
    fragment = [] ∧ parsed.fragment = [] ∨ fragment = '#' :: parsed.fragment := by
  have marked := parts.marked
  have behind := parts.behind
  cases fragment with
  | nil => exact .inl ⟨rfl, behind⟩
  | cons c rest =>
    obtain rfl := List.mem_singleton.mp (marked c rfl)
    exact .inr (congrArg _ behind.symm)

end

theorem lower_head (lower : ∀ c ∈ head, c.isUpper = false)
    (secret : head.map Char.toLower = SecretRef.secretScheme) : head = SecretRef.secretScheme := by
  have same : ∀ c ∈ head, c.toLower = c := fun c member =>
    dif_neg (of_decide_eq_false (lower c member))
  rw [← secret, List.map_congr_left same, List.map_id']

theorem upTo_fragment (parts : Parts url parsed head query fragment) : upTo ['#'] url =
    head ++ ':' :: '/' :: '/' :: (parsed.netloc ++ (parsed.path ++ query)) := by
  have plain : ∀ c ∈ head ++ ':' :: '/' :: '/' :: (parsed.netloc ++ (parsed.path ++ query)),
      c ∉ ['#'] := by
    intro c member
    simp only [List.mem_append, List.mem_cons] at member
    rcases member with named | rfl | rfl | rfl | host | place | asked
    · have letter := parts.letters c named
      rintro mark
      obtain rfl := List.mem_singleton.mp mark
      exact absurd letter (by decide)
    · decide
    · decide
    · decide
    · exact fun mark => parts.netloc c host (by simp_all)
    · exact fun mark => parts.path c place (by simp_all)
    · exact parts.plain c asked
  have whole := parts.whole
  rw [← List.append_assoc parsed.path, ← List.append_assoc parsed.netloc, ← List.cons_append,
    ← List.cons_append, ← List.cons_append, ← List.append_assoc] at whole
  rw [whole]
  exact (upTo_append plain parts.marked).1

theorem not_asked (parts : Parts url parsed head query fragment) (none : '?' ∉ query) :
    query = [] := by
  have asked := parts.asked
  cases query with
  | nil => rfl
  | cons c rest =>
    obtain rfl := List.mem_singleton.mp (asked c rfl)
    exact absurd List.mem_cons_self none

theorem text_of_lossless (lower : LowerScheme url) (lossless : Lossless url)
    (parts : Parts url parsed head query fragment) (fine : Fine parsed) :
    (SecretRef.ofParsed parsed).text = url ∨ (SecretRef.ofParsed parsed).text ++ ['#'] = url := by
  have own : head = SecretRef.secretScheme := by
    refine lower_head (fun c member => lower c (parts.ahead ▸ member)) ?_
    rw [← parts.scheme, fine.scheme]
  have asked := lossless.query
  rw [upTo_fragment parts] at asked
  have empty := not_asked parts fun member => asked (by simp [member])
  have whole := parts.whole
  rw [text_ofParsed parts fine]
  rw [own, empty, List.nil_append] at whole
  rcases fragment_cases parts with ⟨rfl, none⟩ | marked
  · left
    rw [whole, if_pos none]
  · by_cases none : parsed.fragment = []
    · right
      rw [whole, marked, if_pos none, none]
      simp
    · left
      rw [whole, marked, if_neg none]

theorem text_parts (parts : Parts (cleaned url) parsed head query fragment) (fine : Fine parsed) :
    ∃ selector, (SecretRef.ofParsed parsed).text = (SecretRef.secretScheme ++ ':' :: '/' :: '/' ::
        (parsed.netloc ++ parsed.path)) ++ selector ∧
      selector = (if parsed.fragment = [] then [] else '#' :: parsed.fragment) ∧
      Delimited (· ∈ ['#']) selector ∧
      (∀ c ∈ SecretRef.secretScheme ++ ':' :: '/' :: '/' :: (parsed.netloc ++ parsed.path),
        c ∉ ['?', '#']) ∧
      ∀ c ∈ (SecretRef.ofParsed parsed).text, isUnsafe c = false := by
  have text := text_ofParsed parts fine
  refine ⟨_, ?_, rfl, ?_, ?_, ?_⟩
  · rw [text]
    simp
  · split
    · exact fun c nothing => absurd nothing (by simp)
    · exact fun c first => List.mem_singleton.mpr (Option.some.inj first).symm
  · intro c member
    rw [List.mem_append] at member
    rcases member with fixed | later
    · revert c
      decide
    · simp only [List.mem_cons, List.mem_append] at later
      rcases later with rfl | rfl | rfl | host | place
      · decide
      · decide
      · decide
      · have other := parts.netloc c host
        simp_all
      · exact parts.path c place
  · have safe := @cleaned_safe url
    rw [parts.whole] at safe
    intro c member
    rw [text] at member
    simp only [List.mem_append, List.mem_cons] at member safe
    rcases member with fixed | rfl | rfl | rfl | host | place | selector
    · revert c
      decide
    · decide
    · decide
    · decide
    · exact safe c (by simp [host])
    · exact safe c (by simp [place])
    · rcases fragment_cases parts with ⟨-, none⟩ | marked
      · simp [none] at selector
      · split at selector
        · cases selector
        · rw [← marked] at selector
          exact safe c (by simp [selector])

theorem lossless_of_text (parts : Parts (cleaned url) parsed head query fragment)
    (fine : Fine parsed) (back : (SecretRef.ofParsed parsed).text = url ∨
      (SecretRef.ofParsed parsed).text ++ ['#'] = url) : Lossless url := by
  obtain ⟨selector, text, printed, marked, plain, safe⟩ := text_parts parts fine
  have whole : ∃ rest, Delimited (· ∈ ['#']) rest ∧ url = (SecretRef.secretScheme ++
      ':' :: '/' :: '/' :: (parsed.netloc ++ parsed.path)) ++ rest := by
    rcases back with rfl | rfl
    · exact ⟨selector, marked, text⟩
    · refine ⟨selector ++ ['#'], ?_, by rw [text, List.append_assoc]⟩
      cases selector with
      | nil => exact fun c first => List.mem_singleton.mpr (Option.some.inj first).symm
      | cons d rest => exact fun c first => marked c first
  obtain ⟨rest, ends, whole⟩ := whole
  constructor
  case start =>
    rw [whole]
    intro c first
    cases first
    decide
  case safe =>
    rcases back with rfl | rfl
    · exact safe
    · intro c member
      rcases List.mem_append.mp member with inside | last
      · exact safe c inside
      · obtain rfl := List.mem_singleton.mp last
        decide
  case query =>
    have front := (upTo_append (fun c member mark => plain c member (by simp_all)) ends).1
    rw [whole, front]
    exact fun asked => plain '?' asked (by simp)

theorem splitScheme_secret (rest : Name) :
    splitScheme (SecretRef.secretScheme ++ ':' :: rest) = (SecretRef.secretScheme, rest) := by
  have plain : ∀ c ∈ SecretRef.secretScheme, c ∉ [':'] := by decide
  have ends : Delimited (· ∈ [':']) (':' :: rest) := delimited_cons.mpr List.mem_cons_self
  obtain ⟨front, back⟩ := upTo_append plain ends
  unfold splitScheme
  dsimp only
  rw [front, back]
  rfl

theorem splitNetloc_rooted {netloc rest : Name} (plain : ∀ c ∈ netloc, c ∉ ['/', '?', '#']) :
    splitNetloc ('/' :: '/' :: (netloc ++ '/' :: rest)) = (netloc, '/' :: rest) := by
  have ends : Delimited (· ∈ ['/', '?', '#']) ('/' :: rest) :=
    delimited_cons.mpr List.mem_cons_self
  obtain ⟨front, back⟩ := upTo_append plain ends
  exact Prod.ext front back

theorem urlparse_text (silent : raises parsed.netloc = none)
    (parts : Parts (cleaned url) parsed head query fragment) (fine : Fine parsed) :
    urlparse raises (SecretRef.ofParsed parsed).text = .ok { parsed with query := [] } := by
  obtain ⟨selector, text, printed, marked, plain, safe⟩ := text_parts parts fine
  have clean : cleaned (SecretRef.ofParsed parsed).text = (SecretRef.ofParsed parsed).text := by
    refine cleaned_eq_self ?_ safe
    rw [text]
    intro c first
    cases first
    decide
  have hosted : splitNetloc ('/' :: '/' :: (parsed.netloc ++ (parsed.path ++ selector))) =
      (parsed.netloc, parsed.path ++ selector) := by
    rw [path_rooted parts fine]
    exact splitNetloc_rooted parts.netloc
  have free : ∀ c ∈ parsed.path, c ∉ ['#'] := fun c member mark =>
    parts.path c member (by simp_all)
  have unasked : ∀ c ∈ parsed.path, c ∉ ['?'] := fun c member mark =>
    parts.path c member (by simp_all)
  have nothing : Delimited (· ∈ ['?']) ([] : Name) := fun c none => absurd none (by simp)
  obtain ⟨front, back⟩ := upTo_append free marked
  obtain ⟨whole, no_query⟩ := upTo_append unasked nothing
  rw [List.append_nil] at whole no_query
  have fragment_back : selector.drop 1 = parsed.fragment := by
    rw [printed]
    split
    · next none => rw [none, List.drop_nil]
    · rfl
  unfold urlparse
  dsimp only
  rw [clean, text, List.append_assoc, List.cons_append, splitScheme_secret, List.cons_append,
    List.cons_append, List.append_assoc, hosted]
  dsimp only
  rw [silent, front, back, whole, no_query, fragment_back, ← fine.scheme]
  rfl

theorem parse_text {ref : SecretRef} (read : SecretRef.parse raises url = .ok ref) :
    SecretRef.parse raises ref.text = .ok ref := by
  obtain ⟨parsed, found, fine, rfl⟩ := parse_eq_ok.mp read
  obtain ⟨silent, head, query, fragment, parts⟩ := parts_of_urlparse found
    (by rw [fine.scheme]; decide) fine.netloc
  refine parse_eq_ok.mpr ⟨_, urlparse_text silent parts fine, ?_, rfl⟩
  exact ⟨fine.scheme, fine.netloc, fine.path, fine.single, fine.dots, fine.full, fine.literal⟩

theorem roundTrips_iff (lower : LowerScheme url) :
    RoundTrips raises url ↔ (Accepted raises url → Lossless url) := by
  constructor
  · rintro back ⟨parsed, found, passes⟩
    have fine := refusal_eq_none.mp passes
    obtain ⟨-, head, query, fragment, parts⟩ := parts_of_urlparse found
      (by rw [fine.scheme]; decide) fine.netloc
    exact lossless_of_text parts fine (back _ (parse_eq_ok.mpr ⟨parsed, found, fine, rfl⟩))
  · intro keeps ref read
    obtain ⟨parsed, found, fine, rfl⟩ := parse_eq_ok.mp read
    have lossless := keeps ⟨parsed, found, refusal_eq_none.mpr fine⟩
    obtain ⟨-, head, query, fragment, parts⟩ := parts_of_urlparse found
      (by rw [fine.scheme]; decide) fine.netloc
    rw [cleaned_eq_self lossless.start lossless.safe] at parts
    exact text_of_lossless lower lossless parts fine

theorem not_percentEncoded {path front back : Name} {c : Char}
    (literal : ¬ SecretRef.percentEncoded path = true)
    (there : path = front ++ '%' :: '2' :: c :: back) : c ∉ ['e', 'E', 'f', 'F'] := by
  intro encoded
  refine literal (List.any_eq_true.mpr ⟨'%' :: '2' :: c :: back, ?_, ?_⟩)
  · exact (List.mem_tails _ _).mpr ⟨front, there.symm⟩
  · exact decide_eq_true encoded

end Parts

/-- Of a string with a lower-case scheme, a ref that is accepted prints the same exactly when the
string has nothing that is stripped, removed or a query. Every ref is read back from its text, and
its path has no empty or dotted segment and no encoded dot or slash. -/
theorem parse_round_trips (raises : Name → Option String) :
    (∀ uri, LowerScheme uri → (RoundTrips raises uri ↔ (Accepted raises uri → Lossless uri))) ∧
    ∀ uri ref, SecretRef.parse raises uri = .ok ref →
      SecretRef.parse raises ref.text = .ok ref ∧
      (∀ segment ∈ split ref.path, segment ≠ [] ∧ segment ≠ ['.'] ∧ segment ≠ ['.', '.']) ∧
      ∀ front c back, ref.path = front ++ '%' :: '2' :: c :: back → c ∉ ['e', 'E', 'f', 'F'] := by
  refine ⟨fun uri lower => roundTrips_iff lower, fun uri ref read => ⟨parse_text read, ?_⟩⟩
  obtain ⟨parsed, -, fine, rfl⟩ := parse_eq_ok.mp read
  constructor
  · intro segment member
    refine ⟨?_, ?_, ?_⟩
    · rintro rfl
      exact fine.full member
    · rintro rfl
      exact fine.dots (.inr member)
    · rintro rfl
      exact fine.dots (.inl member)
  · exact fun front c back there => not_percentEncoded fine.literal there

def asked : Name :=
  ['s', 'e', 'c', 'r', 'e', 't', ':', '/', '/', 'v', '/', 'p', '?', 'q', '#', 'f']

theorem query_dropped : LowerScheme asked ∧
    (SecretRef.parse (fun _ => none) asked).toOption.map SecretRef.text =
      some ['s', 'e', 'c', 'r', 'e', 't', ':', '/', '/', 'v', '/', 'p', '#', 'f'] ∧
    ¬ RoundTrips (fun _ => none) asked := by
  refine ⟨by decide, by decide, fun back => ?_⟩
  have texts := back ⟨['v'], ['p'], some ['f']⟩ rfl
  revert texts
  decide

theorem plain_ref_round_trips :
    RoundTrips (fun _ => none)
      ['s', 'e', 'c', 'r', 'e', 't', ':', '/', '/', 'v', '/', 'p', '#', 'f'] := by
  refine ((parse_round_trips fun _ => none).1 _ (by decide)).mpr fun _ => ⟨?_, ?_, ?_⟩
  · intro c first
    cases first
    decide
  · decide
  · decide

end HlHelper.Secrets

import HlHelper.Exposure.Addresses
import HlHelper.Exposure.Collectors

/-! What the collector of sockets reads in a file of `/proc/net`: of IPv6 addresses the words come
in the wrong order, and datagram sockets are not listeners. -/

namespace HlHelper.Exposure

structure AddressOf (ipv6 : Bool) (address : List Nat) : Prop where
  size : address.length = if ipv6 then 16 else 4
  bytes : ∀ byte ∈ address, byte < 256

theorem AddressOf.dvd {ipv6 : Bool} {address : List Nat} (own : AddressOf ipv6 address) :
    4 ∣ address.length := by
  rw [own.size]
  split <;> decide

def words : List Nat → List (List Nat)
  | a :: b :: c :: d :: rest => [a, b, c, d] :: words rest
  | _ => []

/-- The words are the same from the last one to the first. -/
def Palindrome (address : List Nat) : Prop := (words address).reverse = words address

namespace SocketCollector

variable {address : List Nat} {port width value : Nat} {ipv6 : Bool}

section Digits

theorem upperDigit : ∀ d < 16, hexValue (Nat.digitChar d).toUpper = some d ∧
    (Nat.digitChar d).toUpper ≠ ':' ∧ isSpace (Nat.digitChar d).toUpper = false := by
  decide

theorem mem_hexDigits {c : Char} (member : c ∈ hexDigits width value) :
    c ≠ ':' ∧ isSpace c = false := by
  induction width generalizing value with
  | zero => exact absurd member List.not_mem_nil
  | succ width ih =>
    rcases List.mem_append.mp member with front | last
    · exact ih front
    · obtain rfl := List.mem_singleton.mp last
      exact (upperDigit (value % 16) (Nat.mod_lt value (by decide))).2

theorem foldl_hexDigits (width value : Nat) :
    ((hexDigits width value).mapM hexValue).map
      (List.foldl (fun value digit => 16 * value + digit) 0) = some (value % 16 ^ width) := by
  induction width generalizing value with
  | zero => simp [hexDigits, Nat.mod_one]
  | succ width ih =>
    obtain ⟨values, read, folded⟩ := Option.map_eq_some_iff.mp (ih (value / 16))
    have digit := (upperDigit (value % 16) (Nat.mod_lt value (by decide))).1
    have power : value % 16 ^ (width + 1) = 16 * (value / 16 % 16 ^ width) + value % 16 := by
      rw [pow_succ', Nat.mod_mul]
      omega
    rw [hexDigits, List.mapM_append, read]
    simp [digit, folded, power]

theorem parseUint_hexDigits (small : port < 2 ^ 16) : parseUint (hexDigits 4 port) = some port := by
  obtain ⟨values, read, folded⟩ := Option.map_eq_some_iff.mp (foldl_hexDigits 4 port)
  have whole : port % 16 ^ 4 = port := Nat.mod_eq_of_lt (by omega)
  have some_ : hexDigits 4 port ≠ [] := by simp [hexDigits]
  have fits : ¬ (hexDigits 4 port = [] ∨ port ≥ 2 ^ 32) := by
    rintro (none_ | large)
    · exact some_ none_
    · omega
  unfold parseUint
  rw [read]
  simp only [Option.bind_eq_bind, Option.bind_some, folded, whole]
  rw [if_neg fits]

theorem decodeString_hexDigits {byte : Nat} (small : byte < 256) (rest : List Char) :
    decodeString (hexDigits 2 byte ++ rest) = (decodeString rest).map (byte :: ·) := by
  have high := (upperDigit (byte / 16 % 16) (Nat.mod_lt _ (by decide))).1
  have low := (upperDigit (byte % 16) (Nat.mod_lt _ (by decide))).1
  have whole : 16 * (byte / 16 % 16) + byte % 16 = byte := by omega
  simp only [hexDigits, List.nil_append, List.cons_append, decodeString, high, low]
  cases decodeString rest with
  | none => rfl
  | some bytes => exact congrArg (fun first => some (first :: bytes)) whole

theorem decodeString_hexAddr (bytes : ∀ byte ∈ address, byte < 256) :
    decodeString (hexAddr address) = some ((words address).flatMap List.reverse) := by
  induction address using words.induct with
  | case1 a b c d rest ih =>
    simp only [List.forall_mem_cons] at bytes
    obtain ⟨first, second, third, fourth, later⟩ := bytes
    simp only [hexAddr, List.flatMap_cons, List.flatMap_nil, List.append_nil, List.append_assoc]
    rw [decodeString_hexDigits fourth, decodeString_hexDigits third,
      decodeString_hexDigits second, decodeString_hexDigits first, ih later]
    rfl
  | case2 address short =>
    have none_ : words address = [] := words.eq_2 address short
    rw [none_, hexAddr.eq_2 address short]
    rfl

theorem not_mem_hexAddr {c : Char} (member : c ∈ hexAddr address) :
    c ≠ ':' ∧ isSpace c = false := by
  induction address using words.induct with
  | case1 a b c d rest ih =>
    rcases List.mem_append.mp member with word | later
    · obtain ⟨byte, _, digit⟩ := List.mem_flatMap.mp word
      exact mem_hexDigits digit
    · exact ih later
  | case2 address short =>
    rw [hexAddr.eq_2 address short] at member
    exact absurd member List.not_mem_nil

end Digits

section Words

theorem flatten_words (size : 4 ∣ address.length) : (words address).flatten = address := by
  induction address using words.induct with
  | case1 a b c d rest ih =>
    have fewer : 4 ∣ rest.length := by
      simp only [List.length_cons] at size
      omega
    simp [words, ih fewer]
  | case2 address short =>
    match address, short with
    | [], _ => rfl
    | [_], _ | [_, _], _ | [_, _, _], _ => exact absurd size (by simp)
    | a :: b :: c :: d :: rest, short => exact absurd rfl (short a b c d rest)

theorem words_flatten {parts : List (List Nat)} (four : ∀ part ∈ parts, part.length = 4) :
    words parts.flatten = parts := by
  induction parts with
  | nil => rfl
  | cons part parts ih =>
    obtain ⟨here, later⟩ := List.forall_mem_cons.mp four
    match part, here with
    | [a, b, c, d], _ => exact congrArg (List.cons [a, b, c, d]) (ih later)

theorem length_of_mem_words {part : List Nat} (member : part ∈ words address) :
    part.length = 4 := by
  induction address using words.induct with
  | case1 a b c d rest ih =>
    rcases List.mem_cons.mp member with rfl | later
    · rfl
    · exact ih later
  | case2 address short =>
    rw [words.eq_2 address short] at member
    exact absurd member List.not_mem_nil

/-- What the bytes of an address are when all of them are reversed. -/
def swapped (address : List Nat) : List Nat := (words address).reverse.flatten

theorem swapped_eq_iff (size : 4 ∣ address.length) :
    swapped address = address ↔ Palindrome address := by
  constructor
  · intro same
    calc
      (words address).reverse = words (swapped address) :=
        (words_flatten fun part member => length_of_mem_words (List.mem_reverse.mp member)).symm
      _ = words address := by rw [same]
  · intro same
    exact (congrArg List.flatten same).trans (flatten_words size)

theorem swapped_perm (size : 4 ∣ address.length) : (swapped address).Perm address := by
  calc
    (swapped address).Perm (words address).flatten := (List.reverse_perm (words address)).flatten
    _ = address := flatten_words size

end Words

section Decode

variable {ipString : List Nat → String}

def printed (address : List Nat) (port : Nat) : List Char :=
  hexAddr address ++ ':' :: hexDigits 4 port

theorem decodeAddrPort_printed (own : AddressOf ipv6 address) (small : port < 2 ^ 16) :
    decodeAddrPort ipString (printed address port) ipv6 =
      some (ipString (swapped address), port) := by
  have plain : ∀ c ∈ hexAddr address, decide (c ≠ ':') = true :=
    fun c member => decide_eq_true (not_mem_hexAddr member).1
  have front : (printed address port).takeWhile (· ≠ ':') = hexAddr address := by
    unfold printed
    rw [List.takeWhile_append_of_pos plain]
    simp
  have back : (printed address port).dropWhile (· ≠ ':') = ':' :: hexDigits 4 port := by
    unfold printed
    rw [List.dropWhile_append_of_pos plain]
    simp
  have reversed : ((words address).flatMap List.reverse).reverse = swapped address := by
    have twice : List.reverse ∘ List.reverse = (id : List Nat → List Nat) :=
      funext List.reverse_reverse
    rw [List.flatMap_def, List.reverse_flatten, List.map_map, twice, List.map_id]
    rfl
  have size : (swapped address).length = if ipv6 then 16 else 4 :=
    (swapped_perm own.dvd).length_eq.trans own.size
  have known : (ipv6 = true ∧ (swapped address).length = 16) ∨ (swapped address).length = 4 := by
    rw [size]
    cases ipv6 <;> simp
  unfold decodeAddrPort
  rw [front, back]
  simp only [List.tail?_cons, Option.bind_eq_bind, Option.bind_some, parseUint_hexDigits small,
    decodeString_hexAddr own.bytes, reversed]
  rw [if_pos known]

theorem ipString_swapped_iff (own : AddressOf ipv6 address) :
    Exposure.ipString (swapped address) = Exposure.ipString address ↔ Palindrome address := by
  have perm := swapped_perm own.dvd
  rw [← swapped_eq_iff own.dvd]
  constructor
  · intro same
    apply ipString_injective _ perm.length_eq.symm _ own.bytes same
    · rw [perm.length_eq, own.size]
      cases ipv6 <;> simp
    · exact fun byte member => own.bytes byte (perm.mem_iff.mp member)
  · exact congrArg Exposure.ipString

theorem palindrome_of_v4 (own : AddressOf false address) : Palindrome address := by
  have four : address.length = 4 := own.size
  match address, four with
  | [_, _, _, _], _ => rfl

end Decode

section Lines

variable {proto : String} {lines front back : List (List Char)} {line : List Char}
  {out : List ListeningSocket × List Connection}

def listenersOf (proto : String) (ipv6 : Bool) (line : List Char) : List ListeningSocket :=
  (parseLine Exposure.ipString proto ipv6 ([], []) line).1

theorem parseLine_listeners (out : List ListeningSocket × List Connection) (line : List Char) :
    (parseLine Exposure.ipString proto ipv6 out line).1 = out.1 ++ listenersOf proto ipv6 line := by
  unfold listenersOf parseLine
  split
  · split
    · exact (List.append_nil _).symm
    · split
      · rfl
      · split <;> exact (List.append_nil _).symm
  · exact (List.append_nil _).symm

theorem parseProcNet_listeners (proto : String) (ipv6 : Bool) (lines : List (List Char)) :
    (parseProcNet Exposure.ipString lines proto ipv6).1 =
      (lines.drop 1).flatMap (listenersOf proto ipv6) := by
  have from_ (out : List ListeningSocket × List Connection) (lines : List (List Char)) :
      (lines.foldl (parseLine Exposure.ipString proto ipv6) out).1 =
        out.1 ++ lines.flatMap (listenersOf proto ipv6) := by
    induction lines generalizing out with
    | nil => exact (List.append_nil _).symm
    | cons line lines ih =>
      rw [List.foldl_cons, ih, parseLine_listeners, List.flatMap_cons, List.append_assoc]
  exact from_ ([], []) (lines.drop 1)

/-- A line that the scanner holds, with too few fields, or without an address and a port. -/
def Malformed (ipv6 : Bool) (line : List Char) : Prop :=
  (line.map Char.utf8Size).sum < 64 * 1024 ∧
    ((fields line).length < 4 ∨
      ∀ text ∈ (fields line)[1]?, decodeAddrPort Exposure.ipString text ipv6 = none)

theorem parseLine_malformed (bad : Malformed ipv6 line) :
    parseLine Exposure.ipString proto ipv6 out line = out := by
  unfold parseLine
  obtain ⟨_, bad⟩ := bad
  split
  · next first text remote state rest apart =>
    rw [apart] at bad
    rcases bad with few | undecoded
    · simp only [List.length_cons] at few
      omega
    · rw [undecoded text rfl]
  · rfl

theorem parseProcNet_malformed (heading : List Char) (bad : Malformed ipv6 line) :
    parseProcNet Exposure.ipString (heading :: (front ++ line :: back)) proto ipv6 =
      parseProcNet Exposure.ipString (heading :: (front ++ back)) proto ipv6 := by
  unfold parseProcNet
  simp only [List.drop_one, List.tail_cons, List.foldl_append, List.foldl_cons,
    parseLine_malformed bad]

end Lines

section Tables

variable {proto : String} {transport : Transport} {socket : Socket}

def procNetFile (rows : List Socket) : List (List Char) :=
  "sl local_address rem_address st".toList :: rows.mapIdx procNetLine

example (host : Host) (transport : Transport) (ipv6 : Bool) : host.procNet transport ipv6 =
    procNetFile (host.sockets.filter fun socket =>
      socket.transport = transport && socket.ipv6 = ipv6) := rfl

structure InTable (transport : Transport) (ipv6 : Bool) (socket : Socket) : Prop where
  transport : socket.transport = transport
  address : AddressOf ipv6 socket.localAddr
  port : socket.localPort < 2 ^ 16
  state : socket.state < 2 ^ 8

theorem fields_cons {word : List Char} (some_ : word ≠ []) (plain : ∀ c ∈ word, isSpace c = false)
    (rest : List Char) : fields (word ++ ' ' :: rest) = word :: fields rest := by
  unfold fields
  rw [List.splitOnP_append_cons_of_forall_mem plain ' ' (by decide)]
  exact List.filter_cons_of_pos (p := fun word : List Char => decide (word ≠ []))
    (decide_eq_true some_)

theorem isSpace_printed (address : List Nat) (port : Nat) :
    ∀ c ∈ printed address port, isSpace c = false := by
  intro c member
  rcases List.mem_append.mp member with word | rest
  · exact (not_mem_hexAddr word).2
  · rcases List.mem_cons.mp rest with rfl | digit
    · decide
    · exact (mem_hexDigits digit).2

theorem isSpace_of_isDigit {c : Char} (digit : c.isDigit) : isSpace c = false := by
  have range : 48 ≤ c.toNat ∧ c.toNat ≤ 57 := by
    simpa [Char.isDigit, UInt32.le_iff_toNat_le] using digit
  unfold isSpace
  simp only [List.mem_cons, List.not_mem_nil, or_false, Bool.or_eq_false_iff,
    decide_eq_false_iff_not, Bool.and_eq_false_iff]
  omega

theorem fields_procNetLine (slot : Nat) (socket : Socket) :
    ∃ first rest, fields (procNetLine slot socket) = first ::
      printed socket.localAddr socket.localPort :: printed socket.remoteAddr socket.remotePort ::
        hexDigits 2 socket.state :: rest := by
  have numbered : ∀ c ∈ (toString slot).toList ++ [':'], isSpace c = false := by
    intro c member
    rcases List.mem_append.mp member with digit | colon
    · rw [Nat.toString_eq_ofList_toDigits, String.toList_ofList] at digit
      exact isSpace_of_isDigit (Nat.isDigit_of_mem_toDigits (by decide) (by decide) digit)
    · rw [List.mem_singleton.mp colon]
      decide
  obtain ⟨later, columns⟩ : ∃ later, procNetLine slot socket =
      ((toString slot).toList ++ [':']) ++ ' ' ::
        (printed socket.localAddr socket.localPort ++ ' ' ::
          (printed socket.remoteAddr socket.remotePort ++ ' ' ::
            (hexDigits 2 socket.state ++ ' ' :: later))) := by
    have blank : " 00000000:00000000 00:00000000 00000000 ".toList =
        ' ' :: "00000000:00000000 00:00000000 00000000 ".toList := by decide
    refine ⟨"00000000:00000000 00:00000000 00000000 ".toList ++ ((toString socket.uid).toList ++
      (" 0 ".toList ++ (toString socket.inode).toList)), ?_⟩
    simp only [procNetLine, printed, blank, List.append_assoc, List.cons_append, List.nil_append]
  refine ⟨(toString slot).toList ++ [':'], fields later, ?_⟩
  rw [columns, fields_cons (by simp) numbered,
    fields_cons (by simp [printed]) (isSpace_printed _ _),
    fields_cons (by simp [printed]) (isSpace_printed _ _),
    fields_cons (by simp [hexDigits]) fun c member => (mem_hexDigits member).2]

theorem hexDigits_listen {state : Nat} (small : state < 2 ^ 8) :
    hexDigits 2 state = ['0', 'A'] ↔ state = 0x0a := by
  constructor
  · intro same
    have byte := decodeString_hexDigits small []
    rw [List.append_nil, same] at byte
    have listen : decodeString ['0', 'A'] = some [0x0a] := by decide
    rw [listen] at byte
    exact (List.cons.inj (Option.some.inj byte)).1.symm
  · rintro rfl
    decide

theorem listenersOf_row (row : InTable transport ipv6 socket) (slot : Nat) :
    listenersOf proto ipv6 (procNetLine slot socket) =
      if socket.state = 0x0a then
        [{ proto, bindAddr := Exposure.ipString (swapped socket.localAddr),
           port := socket.localPort }]
      else [] := by
  obtain ⟨first, rest, columns⟩ := fields_procNetLine slot socket
  unfold listenersOf parseLine
  rw [columns]
  dsimp only
  rw [decodeAddrPort_printed row.address row.port]
  simp only [hexDigits_listen row.state]
  split
  · rfl
  · split <;> rfl

theorem flatMap_mapIdx {α β γ : Type} {rows : List α} {line : Nat → α → β} {own : β → List γ}
    {read : α → List γ} (each : ∀ row ∈ rows, ∀ slot, own (line slot row) = read row) :
    (rows.mapIdx line).flatMap own = rows.flatMap read := by
  induction rows generalizing line with
  | nil => rfl
  | cons row rows ih =>
    obtain ⟨here, later⟩ := List.forall_mem_cons.mp each
    have rest : (rows.mapIdx fun slot => line (slot + 1)).flatMap own = rows.flatMap read :=
      ih fun row member slot => later row member (slot + 1)
    rw [List.mapIdx_cons, List.flatMap_cons, List.flatMap_cons, here, rest]

def listeners (proto : String) (rows : List Socket) : List ListeningSocket :=
  (rows.filter Socket.listening).map fun socket =>
    { proto, bindAddr := Exposure.ipString socket.localAddr, port := socket.localPort }

theorem listeners_eq_flatMap (proto : String) (rows : List Socket) :
    listeners proto rows = rows.flatMap fun socket => listeners proto [socket] := by
  unfold listeners
  induction rows with
  | nil => rfl
  | cons socket rows ih =>
    rw [List.flatMap_cons, ← ih, ← List.map_append, ← List.filter_append, List.singleton_append]

theorem flatMap_beginnings_iff {α β : Type} {rows : List α} {read own : α → List β} :
    (∀ front back, rows = front ++ back → front.flatMap read = front.flatMap own) ↔
      ∀ row ∈ rows, read row = own row := by
  constructor
  · intro same row member
    obtain ⟨front, back, rfl⟩ := List.append_of_mem member
    have before := same front (row :: back) rfl
    have upTo := same (front ++ [row]) back (by simp)
    simpa [before] using upTo
  · intro each front back split
    subst split
    exact List.flatMap_congr fun row member => each row (List.mem_append_left back member)

/-- A listener has an address that is the same backwards, and a datagram socket is in neither of
the two states. -/
def ReadRight (socket : Socket) : Prop :=
  match socket.transport with
  | .tcp => socket.state = 0x0a → Palindrome socket.localAddr
  | .udp => socket.state ≠ 0x0a ∧ socket.state ≠ 0x07

theorem readRight_iff (row : InTable transport ipv6 socket) (slot : Nat) :
    listenersOf proto ipv6 (procNetLine slot socket) = listeners proto [socket] ↔
      ReadRight socket := by
  have right := ipString_swapped_iff row.address
  rw [listenersOf_row row]
  obtain ⟨transport, _, address, _, _, _, state, _, _, _⟩ := socket
  unfold ReadRight listeners
  dsimp only at right ⊢
  cases transport with
  | tcp =>
    by_cases listen : state = 0x0a
    · simp [Socket.listening, listen, right]
    · simp [Socket.listening, listen]
  | udp =>
    by_cases listen : state = 0x0a
    · simp [Socket.listening, listen]
    · by_cases unconnected : state = 0x07
      · simp [Socket.listening, unconnected]
      · simp [Socket.listening, listen, unconnected]

theorem procNetFile_listeners {rows : List Socket}
    (table : ∀ row ∈ rows, InTable transport ipv6 row) :
    (parseProcNet Exposure.ipString (procNetFile rows) proto ipv6).1 =
      rows.flatMap fun row => listenersOf proto ipv6 (procNetLine 0 row) := by
  rw [parseProcNet_listeners]
  apply flatMap_mapIdx
  intro row member slot
  rw [listenersOf_row (table row member), listenersOf_row (table row member)]

end Tables

end SocketCollector

open SocketCollector

/-- An address and its port are read exactly if the words of the address are the same backwards, as
the one of an IPv4 address always is. The listeners of a table, and of each of its beginnings, are
reported exactly if each listening stream socket has such an address and no datagram socket is in
one of the two states. A malformed line drops only itself. -/
theorem proc_net_read_iff (proto : String) (transport : Transport) (ipv6 : Bool) :
    (∀ address port, AddressOf ipv6 address → port < 2 ^ 16 →
      (decodeAddrPort ipString (printed address port) ipv6 = some (ipString address, port) ↔
        Palindrome address)) ∧
      (ipv6 = false → ∀ address, AddressOf ipv6 address → Palindrome address) ∧
      (∀ rows : List Socket, (∀ row ∈ rows, InTable transport ipv6 row) →
        ((∀ front back, rows = front ++ back →
            (parseProcNet ipString (procNetFile front) proto ipv6).1 = listeners proto front) ↔
          ∀ row ∈ rows, ReadRight row)) ∧
      ∀ heading front line back, Malformed ipv6 line →
        parseProcNet ipString (heading :: (front ++ line :: back)) proto ipv6 =
          parseProcNet ipString (heading :: (front ++ back)) proto ipv6 := by
  apply And.intro
  case left =>
    intro address port own small
    rw [decodeAddrPort_printed own small]
    simpa using ipString_swapped_iff own
  case right =>
    refine ⟨?_, ?_, fun heading front line back bad => parseProcNet_malformed heading bad⟩
    case refine_1 =>
      rintro rfl address own
      exact palindrome_of_v4 own
    case refine_2 =>
      intro rows table
      have each (row : Socket) (member : row ∈ rows) :
          listenersOf proto ipv6 (procNetLine 0 row) = listeners proto [row] ↔ ReadRight row :=
        readRight_iff (table row member) 0
      rw [← forall₂_congr each, ← flatMap_beginnings_iff]
      apply forall₃_congr
      intro front back split
      subst split
      rw [procNetFile_listeners fun row member => table row (List.mem_append_left back member),
        listeners_eq_flatMap]

def documentation : List Nat := [32, 1, 13, 184] ++ List.replicate 11 0 ++ [1]

def resolver : Socket := ⟨.udp, false, [0, 0, 0, 0], 53, [0, 0, 0, 0], 0, 0x07, 101, 4242, 0⟩

/-- The words of an IPv6 address come in the wrong order, and a datagram socket is passed over. -/
theorem listeners_misread :
    decodeAddrPort ipString (printed documentation 443) true = some ("0:1::2001:db8", 443) ∧
      ipString documentation = "2001:db8::1" ∧
      (parseProcNet ipString (procNetFile [resolver]) "udp" false).1 = [] ∧
      listeners "udp" [resolver] = [{ proto := "udp", bindAddr := "0.0.0.0", port := 53 }] := by
  refine ⟨?_, ?_, ?_, ?_⟩ <;> decide +kernel

end HlHelper.Exposure

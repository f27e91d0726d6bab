import HlHelper.Library.BigEndian
import HlHelper.Library.Rows
import HlHelper.Oidc.Claims

/-! ID tokens: the key that is selected for one, and the checks of its claims in their order. Times
are seconds. -/

namespace HlHelper.Oidc

structure Provider where
  id : String
  issuer : String
  clientId : String
  claimMappings : Json
  enabled : Bool
  oauth2Only : Bool
  deriving Repr

inductive Failure where
  | oidc (message : String)
  | link (message : String)
  | status (code : Nat) (detail : String)
  /-- An exception of another kind. -/
  | crash
  deriving DecidableEq, Repr

inductive PublicKey where
  | rsa (n e : Nat)
  | ec (curve : String) (x y : Nat)
  deriving DecidableEq, Repr

/-- Base64, `json.loads` and the signature schemes, with the texts of what they raise, and how the
driver passes a value for a text column on, if it does. -/
structure Primitives extends Python where
  b64Decode : String → Except String Bytes
  loads : Bytes → Except String Json
  verify : PublicKey → String → String → Bytes → Except Failure Unit
  bind : Json → Option String

structure Token where
  alg : String
  kid : Json
  payload : Json
  signingInput : String
  signature : Bytes
  deriving Repr

variable (p : Primitives)

def parseToken (text : String) : Except Failure Token :=
  match (text.toList.splitOn '.').map String.ofList with
  | [head, body, last] =>
    match p.b64Decode head >>= p.loads, p.b64Decode body >>= p.loads with
    | .error reason, _ | .ok _, .error reason => .error (.oidc ("malformed_jwt: " ++ reason))
    | .ok header, .ok payload =>
      match p.b64Decode last with
      | .error _ => .error .crash
      | .ok signature =>
        if header.isObj = false then .error .crash
        else
          match header.field "alg" with
          | .str alg =>
            if alg = "none" then .error (.oidc "alg_none_disallowed")
            else .ok ⟨alg, header.field "kid", payload, head ++ "." ++ body, signature⟩
          | _ => .error (.oidc "alg_none_disallowed")
  | _ => .error (.oidc "malformed_jwt")

def keysOf (jwks : Json) : List Json :=
  match jwks.field "keys" with
  | .arr items => items
  | _ => []

def findKid (kid : Json) : List Json → Except Failure Json
  | [] => .error (.oidc ("jwk_not_found:" ++ p.text kid))
  | key :: rest =>
    if key.isObj = false then .error .crash
    else if (key.field "kid").same kid then .ok key
    else findKid kid rest

def onlyKey (jwks : Json) : Except Failure Json :=
  match (jwks.field "keys").len? with
  | none => .error .crash
  | some length =>
    if 1 < length then .error (.oidc "kid required when multiple JWKs present")
    else
      match keysOf jwks with
      | key :: _ => .ok key
      | [] => .error .crash

def selectJwk (jwks kid : Json) : Except Failure Json :=
  if jwks.isObj = false then .error .crash
  else if (jwks.field "keys").truthy = false then .error (.oidc "jwks_empty")
  else
    match kid, jwks.field "keys" with
    | .null, _ => onlyKey jwks
    | kid, .arr items => findKid p kid items
    | _, _ => .error .crash

def member (jwk : Json) (name : String) : Except Failure Nat :=
  match jwk.field name with
  | .str text =>
    match p.b64Decode text with
    | .ok bytes => .ok (Library.BigEndian.get bytes)
    | .error _ => .error .crash
  | _ => .error .crash

def jwkToPublicKey (jwk : Json) : Except Failure PublicKey :=
  if jwk.isObj = false then .error .crash
  else
    match jwk.field "kty" with
    | .str "RSA" => do
        let n ← member p jwk "n"
        let e ← member p jwk "e"
        return .rsa n e
    | .str "EC" =>
      match jwk.field "crv" with
      | .str curve =>
        if curve ∈ ["P-256", "P-384", "P-521"] then do
          let x ← member p jwk "x"
          let y ← member p jwk "y"
          return .ec curve x y
        else .error (.oidc ("unsupported_ec_curve:" ++ curve))
      | .arr _ | .obj _ => .error .crash
      | curve => .error (.oidc ("unsupported_ec_curve:" ++ p.text curve))
    | kty => .error (.oidc ("unsupported_kty:" ++ p.text kty))

def verifyJwtSignature (key : PublicKey) (token : Token) : Except Failure Unit :=
  if token.alg ∉ ["RS256", "RS384", "RS512", "ES256"] then
    .error (.oidc ("unsupported_alg:" ++ token.alg))
  else if token.alg = "ES256" ∧ token.signature.length ≠ 2 * 32 then
    .error (.oidc "invalid_signature")
  else p.verify key token.alg token.signingInput token.signature

section Checks

variable (provider : Provider) (nonce : String) (now : ℚ) (payload : Json)

def checkIss : Option Failure :=
  match payload.field "iss" with
  | .str issuer =>
    if issuer = provider.issuer then none else some (.oidc ("iss_mismatch:" ++ issuer))
  | other => some (.oidc ("iss_mismatch:" ++ p.text other))

def names (clientId : String) : Json → Option Bool
  | .str aud => some (aud = clientId)
  | .arr items =>
    some (items.any fun item =>
      match item with
      | .str aud => aud = clientId
      | _ => false)
  | .obj fields => some (fields.any fun entry => entry.1 = clientId)
  | aud => if aud.truthy then none else some false

def checkAud : Option Failure :=
  match names provider.clientId (payload.field "aud") with
  | none => some .crash
  | some false => some (.oidc "aud_mismatch")
  | some true => none

def checkAzp : Option Failure :=
  match payload.field "aud" with
  | .arr items =>
    if 1 < items.length then
      match payload.field "azp" with
      | .str azp => if azp = provider.clientId then none else some (.oidc "azp_mismatch")
      | _ => some (.oidc "azp_mismatch")
    else none
  | _ => none

def skew : ℚ := 60

def checkExp : Option Failure :=
  match payload.field "exp" with
  | .null => some (.oidc "token_expired")
  | exp =>
    match exp.number? with
    | none => some .crash
    | some exp => if (exp.add skew).lt (.finite now) then some (.oidc "token_expired") else none

def checkBegun (message : String) (start : Json) : Option Failure :=
  match start, start.number? with
  | .null, _ => none
  | _, none => some .crash
  | _, some start => if (Number.finite (now + skew)).lt start then some (.oidc message) else none

def checkNbf : Option Failure := checkBegun now "token_not_yet_valid" (payload.field "nbf")

def checkIat : Option Failure := checkBegun now "token_iat_in_future" (payload.field "iat")

def checkNonce : Option Failure :=
  match payload.field "nonce" with
  | .str given => if given = nonce then none else some (.oidc "nonce_mismatch")
  | _ => some (.oidc "nonce_mismatch")

def refusal : Option Failure :=
  if payload.isObj = false then some .crash
  else
    (checkIss p provider payload).or <| (checkAud provider payload).or <|
      (checkAzp provider payload).or <| (checkExp now payload).or <| (checkNbf now payload).or <|
        (checkIat now payload).or (checkNonce nonce payload)

end Checks

/-- What the checks say of the claims. A NaN is beyond no time. -/
structure Accepts (provider : Provider) (nonce : String) (now : ℚ) (payload : Json) : Prop where
  issuer : payload.field "iss" = .str provider.issuer
  audience : names provider.clientId (payload.field "aud") = some true
  expires : ∃ exp, (payload.field "exp").number? = some exp ∧
    (exp.add skew).lt (.finite now) = false
  begun : ∀ nbf, (payload.field "nbf").number? = some nbf →
    (Number.finite (now + skew)).lt nbf = false
  nonce : payload.field "nonce" = .str nonce

/-- The rest of `verify_id_token`, once the key is selected. -/
def verifyWith (provider : Provider) (nonce : String) (now : ℚ) (token : Token) (jwk : Json) :
    Except Failure Unit :=
  match jwkToPublicKey p jwk with
  | .error failure => .error failure
  | .ok key =>
    match verifyJwtSignature p key token with
    | .error failure => .error failure
    | .ok () =>
      match refusal p provider nonce now token.payload with
      | some failure => .error failure
      | none => .ok ()

variable {p} {provider : Provider} {nonce : String} {now : ℚ} {payload jwks kid jwk : Json}
  {token : Token}

theorem checkIss_none (passed : checkIss p provider payload = none) :
    payload.field "iss" = .str provider.issuer := by
  rw [checkIss] at passed
  split at passed
  · next issuer held =>
    split at passed
    · next same => rw [held, same]
    · cases passed
  · cases passed

theorem checkAud_none (passed : checkAud provider payload = none) :
    names provider.clientId (payload.field "aud") = some true := by
  rw [checkAud] at passed
  split at passed
  · cases passed
  · cases passed
  · next named => exact named

theorem checkExp_none (passed : checkExp now payload = none) :
    ∃ exp, (payload.field "exp").number? = some exp ∧
      (exp.add skew).lt (.finite now) = false := by
  rw [checkExp] at passed
  split at passed
  · cases passed
  · split at passed
    · cases passed
    · next exp held =>
      split at passed
      · cases passed
      · next later => exact ⟨exp, held, Bool.eq_false_iff.mpr later⟩

theorem checkBegun_none {message : String} {value : Json}
    (passed : checkBegun now message value = none) :
    ∀ start, value.number? = some start → (Number.finite (now + skew)).lt start = false := by
  intro start held
  unfold checkBegun at passed
  split at passed
  · cases held
  · cases passed
  · next other =>
    obtain rfl := Option.some.inj (other.symm.trans held)
    split at passed
    · cases passed
    · next begun => exact Bool.eq_false_iff.mpr begun

theorem checkNonce_none (passed : checkNonce nonce payload = none) :
    payload.field "nonce" = .str nonce := by
  rw [checkNonce] at passed
  split at passed
  · next given held =>
    split at passed
    · next same => rw [held, same]
    · cases passed
  · cases passed

theorem accepts_of_refusal (passed : refusal p provider nonce now payload = none) :
    Accepts provider nonce now payload := by
  rw [refusal] at passed
  split at passed
  · cases passed
  · simp only [Option.or_eq_none_iff] at passed
    obtain ⟨iss, aud, _, exp, nbf, _, nonce⟩ := passed
    exact ⟨checkIss_none iss, checkAud_none aud, checkExp_none exp, checkBegun_none nbf,
      checkNonce_none nonce⟩

theorem findKid_mem {keys : List Json} (found : findKid p kid keys = .ok jwk) : jwk ∈ keys := by
  induction keys with
  | nil => cases found
  | cons key rest ih =>
    rw [findKid] at found
    split at found
    · cases found
    · split at found
      · cases found
        exact List.mem_cons_self
      · exact List.mem_cons_of_mem _ (ih found)

theorem onlyKey_mem (selected : onlyKey jwks = .ok jwk) : jwk ∈ keysOf jwks := by
  rw [onlyKey] at selected
  split at selected
  · cases selected
  · split at selected
    · cases selected
    · split at selected
      · next key rest held =>
        cases selected
        rw [held]
        exact List.mem_cons_self
      · cases selected

theorem selectJwk_mem (selected : selectJwk p jwks kid = .ok jwk) : jwk ∈ keysOf jwks := by
  unfold selectJwk at selected
  split at selected
  · cases selected
  · split at selected
    · cases selected
    · split at selected
      · exact onlyKey_mem selected
      · next held =>
        rw [keysOf, held]
        exact findKid_mem selected
      · cases selected

def Signed (p : Primitives) (jwk : Json) (token : Token) : Prop :=
  ∃ key, jwkToPublicKey p jwk = .ok key ∧ verifyJwtSignature p key token = .ok ()

theorem verifyWith_ok (passed : verifyWith p provider nonce now token jwk = .ok ()) :
    Signed p jwk token ∧ Accepts provider nonce now token.payload := by
  rw [verifyWith] at passed
  split at passed
  · cases passed
  · next key read =>
    split at passed
    · cases passed
    · next signed =>
      split at passed
      · cases passed
      · next accepted => exact ⟨⟨key, read, signed⟩, accepts_of_refusal accepted⟩

end HlHelper.Oidc

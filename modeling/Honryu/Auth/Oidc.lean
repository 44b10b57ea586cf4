import Honryu.Lib.Checked
import Honryu.Lib.Text

/-!
Callers that present an ID token.

The provider checks the signature, the issuer and the audience. It checks the expiry only if it is
not zero, and a token that does not carry one decodes to zero: such a token is accepted for ever.
-/

namespace Honryu.Auth

/-! ### Tokens -/

/-- `bearer` extracts the token from a header. -/
def bearer (header : String) : String :=
  if "Bearer ".toList.isPrefixOf header.toList then
    Text.trimSpace (String.ofList (header.toList.drop "Bearer ".length))
  else ""

inductive AuthError
  | unauthenticated
  deriving DecidableEq

structure JwtHeader where
  alg : String
  kid : String
  deriving DecidableEq

/-- The claims of a token. What it does not carry decodes to the empty text, or to no audience; the
expiry, in seconds, is kept apart from one that it does carry. -/
structure Claims where
  iss : String
  sub : String
  email : String
  name : String
  exp : Option ℤ
  aud : List String
  deriving DecidableEq

/-- A `Provider`, and what it decodes and verifies with: the segments of a token, and the signature
of a text under a key. -/
structure Provider (Key : Type) where
  keys : String → Option Key
  issuer : String
  audience : String
  decodeHeader : String → Option JwtHeader
  decodeClaims : String → Option Claims
  decodeSignature : String → Option (List UInt8)
  verify : Key → String → List UInt8 → Bool

structure Caller where
  subject : String
  email : String
  name : String
  deriving DecidableEq

section Provider

variable {Key : Type} (p : Provider Key)

/-- `Authenticate` up to the claims: the claims of a token with a valid signature. -/
def Provider.verified (raw : String) : Except AuthError Claims :=
  match (raw.toList.splitOn '.').map String.ofList with
  | [header, claims, signature] =>
      match p.decodeHeader header with
      | none => .error .unauthenticated
      | some hdr =>
          if hdr.alg ≠ "RS256" then .error .unauthenticated
          else
            match p.keys hdr.kid, p.decodeSignature signature with
            | some key, some sig =>
                if p.verify key (header ++ "." ++ claims) sig = false then .error .unauthenticated
                else
                  match p.decodeClaims claims with
                  | none => .error .unauthenticated
                  | some cl => .ok cl
            | _, _ => .error .unauthenticated
  | _ => .error .unauthenticated

/-- `validate`, at an instant in nanoseconds. -/
def Provider.validate (now : ℤ) (cl : Claims) : Except AuthError Unit :=
  if cl.sub = "" then .error .unauthenticated
  else if p.issuer ≠ "" ∧ cl.iss ≠ p.issuer then .error .unauthenticated
  else if p.audience ≠ "" ∧ p.audience ∉ cl.aud then .error .unauthenticated
  else if cl.exp.getD 0 ≠ 0 ∧ cl.exp.getD 0 * 10 ^ 9 < now then .error .unauthenticated
  else .ok ()

def Provider.authenticate (now : ℤ) (header : String) : Except AuthError Caller :=
  if bearer header = "" then .error .unauthenticated
  else do
    let cl ← p.verified (bearer header)
    p.validate now cl
    return { subject := cl.sub, email := cl.email, name := cl.name }

/-! ### What is accepted -/

/-- The text is a token with these claims, signed with RS256 under the key that it names. -/
def Provider.Signed (raw : String) (cl : Claims) : Prop :=
  ∃ header claims signature hdr key sig,
    (raw.toList.splitOn '.').map String.ofList = [header, claims, signature] ∧
      p.decodeHeader header = some hdr ∧ hdr.alg = "RS256" ∧ p.keys hdr.kid = some key ∧
      p.decodeSignature signature = some sig ∧ p.verify key (header ++ "." ++ claims) sig = true ∧
      p.decodeClaims claims = some cl

/-- The issuer and the audience are those of the configuration, where it has any. -/
def Provider.Addressed (cl : Claims) : Prop :=
  (p.issuer ≠ "" → cl.iss = p.issuer) ∧ (p.audience ≠ "" → p.audience ∈ cl.aud)

def Claims.Live (cl : Claims) (now : ℤ) : Prop := ∃ exp, cl.exp = some exp ∧ now ≤ exp * 10 ^ 9

theorem verified_eq_ok_iff {raw : String} {cl : Claims} :
    p.verified raw = .ok cl ↔ p.Signed raw cl := by
  constructor
  · intro h
    unfold Provider.verified at h
    split at h
    next header claims signature hparts =>
      split at h
      · cases h
      next hdr hhdr =>
        rw [Checked.guard_eq_ok, not_not] at h
        obtain ⟨halg, h⟩ := h
        split at h
        next key sig hkey hsig =>
          rw [Checked.guard_eq_ok, Bool.not_eq_false] at h
          obtain ⟨hverify, h⟩ := h
          split at h
          · cases h
          next cl' hcl =>
            cases h
            exact ⟨header, claims, signature, hdr, key, sig, hparts, hhdr, halg, hkey, hsig, hverify,
              hcl⟩
        · cases h
    · cases h
  · rintro ⟨header, claims, signature, hdr, key, sig, hparts, hhdr, halg, hkey, hsig, hverify, hcl⟩
    simp only [Provider.verified, hparts, hhdr, halg, hkey, hsig, hverify, hcl]
    simp

theorem validate_eq_ok_iff {now : ℤ} {cl : Claims} :
    p.validate now cl = .ok () ↔
      cl.sub ≠ "" ∧ p.Addressed cl ∧ (cl.exp.getD 0 = 0 ∨ now ≤ cl.exp.getD 0 * 10 ^ 9) := by
  simp only [Provider.validate, Checked.guard_eq_ok, Provider.Addressed, not_and, not_not, not_lt,
    and_true, ne_eq, and_assoc, imp_iff_or_not]
  tauto

/-- A caller is accepted if the token is signed, has a subject, is addressed to the provider, and does
not carry an expiry other than zero that has passed. -/
theorem authenticate_ok_iff {now : ℤ} {header : String} :
    (∃ acct, p.authenticate now header = .ok acct) ↔
      ∃ cl, p.Signed (bearer header) cl ∧ cl.sub ≠ "" ∧ p.Addressed cl ∧
        (cl.exp.getD 0 = 0 ∨ now ≤ cl.exp.getD 0 * 10 ^ 9) := by
  simp only [← verified_eq_ok_iff, ← validate_eq_ok_iff]
  unfold Provider.authenticate
  by_cases hraw : bearer header = ""
  · rw [if_pos hraw, hraw]
    refine iff_of_false nofun ?_
    rintro ⟨cl, hverified, -⟩
    cases hverified
  · rw [if_neg hraw]
    constructor
    · rintro ⟨acct, h⟩
      obtain ⟨cl, hverified, h⟩ := (Checked.bind_eq_ok ..).mp h
      obtain ⟨_, hvalid, -⟩ := (Checked.bind_eq_ok ..).mp h
      exact ⟨cl, hverified, hvalid⟩
    · rintro ⟨cl, hverified, hvalid⟩
      exact ⟨_, by rw [hverified]; change p.validate now cl >>= _ = _; rw [hvalid]; rfl⟩

theorem signed_unique {raw : String} {cl cl' : Claims} (h : p.Signed raw cl)
    (h' : p.Signed raw cl') : cl = cl' := by
  rw [← verified_eq_ok_iff] at h h'
  exact Except.ok.inj (h.symm.trans h')

/-- No caller is accepted but with a signed token that is addressed to the provider and live. -/
def Provider.OnlyGenuine (now : ℤ) (header : String) : Prop :=
  (∃ acct, p.authenticate now header = .ok acct) →
    ∃ cl, p.Signed (bearer header) cl ∧ p.Addressed cl ∧ cl.Live now

/-- That is so of a token if and only if, should nothing else speak against it, it carries an expiry
other than zero. Zero is an expiry that has not passed before the year 1970. -/
theorem onlyGenuine_iff (now : ℤ) (header : String) :
    p.OnlyGenuine now header ↔
      ∀ cl, p.Signed (bearer header) cl → cl.sub ≠ "" → p.Addressed cl →
        ∃ exp, cl.exp = some exp ∧ (exp = 0 → now ≤ 0) := by
  rw [Provider.OnlyGenuine, authenticate_ok_iff]
  constructor
  · intro h cl hsigned hsub haddressed
    by_cases hzero : cl.exp.getD 0 = 0
    · obtain ⟨cl', hsigned', -, exp, hexp, hle⟩ := h ⟨cl, hsigned, hsub, haddressed, .inl hzero⟩
      obtain rfl := signed_unique p hsigned hsigned'
      refine ⟨exp, hexp, ?_⟩
      rintro rfl
      simpa using hle
    · cases hexp : cl.exp with
      | none => simp [hexp] at hzero
      | some exp => exact ⟨exp, rfl, fun h0 => absurd (by simp [hexp, h0]) hzero⟩
  · rintro h ⟨cl, hsigned, hsub, haddressed, hlive⟩
    obtain ⟨exp, hexp, hzero⟩ := h cl hsigned hsub haddressed
    refine ⟨cl, hsigned, haddressed, exp, hexp, ?_⟩
    rw [hexp, Option.getD_some] at hlive
    obtain rfl | hle := hlive
    · simpa using hzero rfl
    · exact hle

end Provider

/-- A provider that takes one token of one issuer, with the claims that it is given. -/
def idProvider (cl : Claims) : Provider Unit where
  keys kid := if kid = "key-1" then some () else none
  issuer := "https://id"
  audience := "honryu"
  decodeHeader s := if s = "header" then some ⟨"RS256", "key-1"⟩ else none
  decodeClaims s := if s = "claims" then some cl else none
  decodeSignature s := if s = "signature" then some [1] else none
  verify _ text sig := text = "header.claims" ∧ sig = [1]

def ageless : Claims :=
  { iss := "https://id", sub := "alice", email := "", name := "", exp := none, aud := ["honryu"] }

/-- It is accepted at any time. -/
theorem not_onlyGenuine_ageless :
    ¬(idProvider ageless).OnlyGenuine (10 ^ 18) "Bearer header.claims.signature" := by
  intro h
  obtain ⟨cl, hsigned, -, exp, hexp, -⟩ := h ⟨⟨"alice", "", ""⟩, by decide +kernel⟩
  have hverified : (idProvider ageless).verified (bearer "Bearer header.claims.signature") =
      .ok ageless := by decide +kernel
  obtain rfl := signed_unique _ ((verified_eq_ok_iff _).mp hverified) hsigned
  cases hexp

end Honryu.Auth

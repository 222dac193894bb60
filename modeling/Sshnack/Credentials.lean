import Sshnack.Decimal
import Sshnack.RequestBuffer

/-!
# From the bearer value to the credentials

`load_config` keeps the first 127 bytes of the admin token and `parse_request` the first 127 bytes of
the bearer value; `auth_parse` compares these, or converts with `strtol` and narrows to `int`. The
credentials are the ones that the value stands for exactly if nothing is lost on this way.
-/

namespace Sshnack

def loadToken (token : CString) : CString := token.take 127

/-- The value of the last `Authorization: Bearer` line, empty if there is none. -/
def bearerValue (lines : List CString) : CString :=
  match (lines.filter isBearerLine).getLast? with
  | none => []
  | some line => line.drop 22

theorem lastBearer_eq_take (lines : List CString) :
    lastBearer lines = (bearerValue lines).take 127 := by
  unfold lastBearer bearerValue
  cases (lines.filter isBearerLine).getLast? <;> rfl

def Numeral (v : CString) (n : ℕ) : Prop :=
  v ≠ [] ∧ (∀ c ∈ v, isDigit c = true) ∧ digitsValue v = n

/-- The admin is who sends the admin token, and a user is who sends the numeral of the id. -/
structure ExactCredentials (token v : CString) (auth : Auth) : Prop where
  admin : auth.role = .admin ↔ v ≠ [] ∧ v = token
  user : auth.role = .user → ∃ n, Numeral v n ∧ 1 ≤ n ∧ n < 2 ^ 31 ∧ auth.userId.toInt = n

/-- The value differs from the admin token within the first 127 bytes or not at all; and if
`auth_parse` accepts these bytes as a number, then the value is a numeral that has no more bytes and
fits an int. -/
structure TokenFits (token v : CString) : Prop where
  admin : v ≠ [] → v.take 127 = token.take 127 → v = token
  user : v.take 127 ≠ token.take 127 → (strtol (v.take 127)).2 = [] →
    0 < (strtol (v.take 127)).1 →
    v.length ≤ 127 ∧ (∀ c ∈ v, isDigit c = true) ∧ digitsValue v < 2 ^ 31

theorem strtol_digits {v : CString} (hne : v ≠ []) (hv : ∀ c ∈ v, isDigit c = true) :
    strtol v = (clampLong (digitsValue v), []) := by
  have hscan : scanLong (v ++ []) = some (clampLong (digitsValue v), []) :=
    (scanLong_digits hne hv (by simp)).1
  rw [List.append_nil] at hscan
  rw [strtol, hscan, Option.getD_some]

theorem clampLong_of_int {n : ℕ} (h : n < 2 ^ 31) :
    clampLong n = n ∧ (Int32.ofInt (clampLong n)).toInt = n := by
  have hclamp : clampLong n = n := by
    unfold clampLong
    omega
  rw [hclamp]
  exact ⟨rfl, Int32.toInt_ofInt_of_le (by omega) (by omega)⟩

theorem digitsValue_lt_of_cut {v : CString} (hlen : 127 < v.length)
    (hpos : 0 < digitsValue (v.take 127)) : digitsValue (v.take 127) < digitsValue v := by
  have hvalue := digitsValue_append (v.take 127) (v.drop 127)
  rw [List.take_append_drop] at hvalue
  have hpow : 1 < 10 ^ (v.drop 127).length := by
    apply Nat.one_lt_pow _ (by decide)
    rw [List.length_drop]
    omega
  calc digitsValue (v.take 127)
      < digitsValue (v.take 127) * 10 ^ (v.drop 127).length := (Nat.lt_mul_iff_one_lt_right hpos).2 hpow
    _ ≤ digitsValue v := by omega

/-- An accepted number is the user's id exactly if the value is a whole numeral that fits. -/
theorem user_exact_iff {v : CString} (hpos : 0 < (strtol (v.take 127)).1) :
    (∃ n, Numeral v n ∧ 1 ≤ n ∧ n < 2 ^ 31 ∧
        (Int32.ofInt (strtol (v.take 127)).1).toInt = n) ↔
      v.length ≤ 127 ∧ (∀ c ∈ v, isDigit c = true) ∧ digitsValue v < 2 ^ 31 := by
  have hne : v.take 127 ≠ [] := by
    intro hnil
    rw [hnil] at hpos
    exact absurd hpos (by decide)
  have hvalue (hv : ∀ c ∈ v, isDigit c = true) :
      (strtol (v.take 127)).1 = clampLong (digitsValue (v.take 127)) := by
    rw [strtol_digits hne fun c hc => hv c (List.mem_of_mem_take hc)]
  constructor
  · rintro ⟨n, ⟨_, hv, rfl⟩, _, hfits, hid⟩
    refine ⟨?_, hv, hfits⟩
    by_contra hlen
    have hcut : 0 < digitsValue (v.take 127) := by
      rw [hvalue hv] at hpos
      unfold clampLong at hpos
      omega
    have hlt := digitsValue_lt_of_cut (Nat.lt_of_not_le hlen) hcut
    rw [hvalue hv, (clampLong_of_int (hlt.trans hfits)).2] at hid
    omega
  · rintro ⟨hlen, hv, hfits⟩
    have hwhole : v.take 127 = v := List.take_of_length_le hlen
    rw [hvalue hv, hwhole] at hpos
    rw [hvalue hv]
    rw [hwhole] at hne ⊢
    obtain ⟨hclamp, hid⟩ := clampLong_of_int hfits
    exact ⟨digitsValue v, ⟨hne, hv, rfl⟩, by omega, hfits, hid⟩

theorem exactCredentials_iff (token v : CString) :
    ExactCredentials token v (authParse (v.take 127) (loadToken token)) ↔ TokenFits token v := by
  have hsame : v = token → v.take 127 = token.take 127 := congrArg _
  unfold authParse loadToken
  split_ifs with hcut hadmin hnumber
  · have hnil : v = [] := by simpa using hcut
    subst hnil
    refine iff_of_true ⟨by simp [noAuth], by simp [noAuth]⟩ ⟨fun h => absurd rfl h, fun _ _ h => ?_⟩
    exact absurd h (by decide)
  · have hne : v ≠ [] := fun hnil => hcut (by rw [hnil]; rfl)
    constructor
    · intro h
      exact ⟨fun _ _ => (h.admin.1 rfl).2, fun hdiff => absurd hadmin hdiff⟩
    · intro h
      exact ⟨iff_of_true rfl ⟨hne, h.admin hne hadmin⟩, by simp⟩
  · have hrole : ¬ (v ≠ [] ∧ v = token) := fun h => hadmin (hsame h.2)
    constructor
    · intro h
      exact ⟨fun _ heq => absurd heq hadmin, fun _ _ hpos => (user_exact_iff hpos).1 (h.user rfl)⟩
    · intro h
      refine ⟨iff_of_false (by simp) hrole, fun _ => ?_⟩
      exact (user_exact_iff hnumber.2).2 (h.user hadmin hnumber.1 hnumber.2)
  · have hrole : ¬ (v ≠ [] ∧ v = token) := fun h => hadmin (hsame h.2)
    refine iff_of_true ⟨iff_of_false (by simp [noAuth]) hrole, by simp [noAuth]⟩ ?_
    exact ⟨fun _ heq => absurd heq hadmin, fun _ hend hpos => absurd ⟨hend, hpos⟩ hnumber⟩

theorem PlainRequest.parseRequestAt_resolved (r : PlainRequest) (token : CString)
    (rest : List UInt8) : parseRequestAt (loadToken token) (r.text ++ 0 :: rest) =
      some ⟨some r.method, r.path, r.body,
        authParse ((bearerValue r.headers).take 127) (loadToken token)⟩ := by
  rw [parseRequestAt_eq _ (pointsTo_start r.text_noNul), r.parseRequest_text, lastBearer_eq_take]

/-- A request gets the credentials that its bearer value stands for exactly if the value fits; and
two values that fit and give the same user are numerals of the same number. -/
theorem credentials_exact_iff (token : CString) :
    (∀ (r : PlainRequest) (rest : List UInt8), ∃ auth,
      parseRequestAt (loadToken token) (r.text ++ 0 :: rest) =
          some ⟨some r.method, r.path, r.body, auth⟩ ∧
        (ExactCredentials token (bearerValue r.headers) auth ↔
          TokenFits token (bearerValue r.headers))) ∧
    ∀ v v', TokenFits token v → TokenFits token v' →
      (authParse (v.take 127) (loadToken token)).role = .user →
      authParse (v'.take 127) (loadToken token) = authParse (v.take 127) (loadToken token) →
      ∃ n, Numeral v n ∧ Numeral v' n := by
  constructor
  · intro r rest
    refine ⟨_, r.parseRequestAt_resolved token rest, ?_⟩
    exact exactCredentials_iff token (bearerValue r.headers)
  · intro v v' h h' hrole hsame
    obtain ⟨n, hn, -, -, hid⟩ := ((exactCredentials_iff token v).2 h).user hrole
    obtain ⟨n', hn', -, -, hid'⟩ := ((exactCredentials_iff token v').2 h').user (by rw [hsame, hrole])
    rw [hsame, hid, Int.natCast_inj] at hid'
    exact ⟨n, hn, hid' ▸ hn'⟩

theorem wrappedHeaders_lines : ∀ line ∈ [ascii "Authorization: Bearer 4294967297"],
    HeaderLine line := by
  intro line hline
  fin_cases hline
  exact ⟨by decide, by decide, by decide, by decide⟩

def wrappedQuery : PlainRequest :=
  ⟨.get, ascii "/stock", ascii "HTTP/1.1", [ascii "Authorization: Bearer 4294967297"], [],
    stockPath_word, stockPath_fits, stockVersion_line, wrappedHeaders_lines, noBody_text,
    noBody_fits⟩

/-- It is taken for user 1. -/
theorem credentials_not_exact : ¬ ∀ (token : CString) (r : PlainRequest) (rest : List UInt8) auth,
    parseRequestAt (loadToken token) (r.text ++ 0 :: rest) =
      some ⟨some r.method, r.path, r.body, auth⟩ →
    ExactCredentials token (bearerValue r.headers) auth := by
  intro h
  obtain ⟨n, ⟨-, -, hvalue⟩, -, hfits, -⟩ := (h (ascii "admin") wrappedQuery [] _
    (wrappedQuery.parseRequestAt_resolved _ _)).user (by decide)
  have hnumber : digitsValue (bearerValue wrappedQuery.headers) = 4294967297 := by decide
  omega

end Sshnack

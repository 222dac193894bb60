import Sshnack.ApiClient
import Sshnack.Router
import Sshnack.Decimal

/-!
# The client and the server on the wire

Every request of the client, in any message that libcurl may send for it, is parsed by the server to
what the client meant: the handler, the credentials and the numbers.
-/

namespace Sshnack.Tui

/-! ### Numbers in texts -/

theorem snprintf_of_length {size : ℕ} {text : CString} (h : text.length < size) :
    snprintf size text = text :=
  List.take_of_length_le (by omega)

theorem jsonNumber_eq (key : String) (x : Int32) (hkey : (ascii key).length ≤ 40) :
    jsonNumber key x = numberBody key x := by
  apply snprintf_of_length
  have hlen := formatInt_length x
  have hopen : (ascii "\x7b\"").length = 2 := rfl
  have hmid : (ascii "\":").length = 2 := rfl
  have hclose : (ascii "\x7d").length = 1 := rfl
  simp only [numberBody, List.length_append]
  omega

theorem scanLiteral_append (literal s : CString) : scanLiteral literal (literal ++ s) = some s := by
  simp [scanLiteral]

theorem scanField_numberBody (key : String) (x : Int32) :
    scanField key (numberBody key x) = some x := by
  have hclose : ∀ c ∈ (ascii "\x7d").head?, isDigit c = false := by decide +kernel
  have hshape : numberBody key x =
      (ascii "\x7b\"" ++ ascii key ++ ascii "\":") ++ (formatInt x ++ ascii "\x7d") := by
    simp [numberBody]
  rw [scanField, scanNumber, hshape, scanLiteral_append, Option.bind_some, scanInt_formatInt x hclose]

theorem scanNumber_path (path : String) (x : Int32) :
    scanNumber (ascii path) (ascii path ++ formatInt x) = some x := by
  have hscan : scanInt (formatInt x ++ []) = some x := scanInt_formatInt x (by simp)
  rw [List.append_nil] at hscan
  rw [scanNumber, scanLiteral_append, Option.bind_some, hscan]

/-! ### Credentials -/

/-- A decimal numeral without a sign. -/
def IsNumeral (t : CString) : Prop := t ≠ [] ∧ ∀ c ∈ t, isDigit c = true

theorem authParse_user {userId : Int32} {adminToken : CString} (hpos : 0 < userId.toInt)
    (hnum : ¬ IsNumeral adminToken) : authParse (formatInt userId) adminToken = ⟨.user, userId⟩ := by
  have hne : formatInt userId ≠ adminToken := by
    rintro rfl
    apply hnum
    rw [formatInt_of_nonneg hpos.le]
    exact ⟨decimal_ne_nil _, decimal_digits _⟩
  rw [authParse, if_neg (formatInt_ne_nil userId), if_neg hne, strtol_formatInt,
    if_pos ⟨rfl, hpos⟩, Int32.ofInt_toInt]

theorem authParse_admin {adminToken : CString} (hne : adminToken ≠ []) :
    authParse adminToken adminToken = ⟨.admin, 0⟩ := by
  rw [authParse, if_neg hne, if_pos rfl]

theorem bearerOf_authorization (bearer : CString) (hlen : bearer.length ≤ 127) :
    bearerOf (ascii "Authorization: Bearer " ++ bearer) = some bearer := by
  have htake : (ascii "Authorization: Bearer " ++ bearer).take 22 = ascii "Authorization: Bearer " :=
    List.take_left' rfl
  have hdrop : (ascii "Authorization: Bearer " ++ bearer).drop 22 = bearer := List.drop_left' rfl
  have hlower : (ascii "Authorization: Bearer ").map toLower = bearerPrefix := by decide
  rw [bearerOf, htake, hdrop, if_pos hlower, List.take_of_length_le hlen]

theorem isAuthorization_of_bearerOf {line bearer : CString} (h : bearerOf line = some bearer) :
    IsAuthorization line := by
  unfold bearerOf at h
  split_ifs at h with hprefix
  have htake := congrArg (List.take 14) hprefix
  rw [← List.map_take, List.take_take] at htake
  exact htake

/-- One bearer token in the lines, possibly repeated. -/
theorem bearerAfter_eq {lines : List CString} {line bearer : CString} (hmem : line ∈ lines)
    (hline : bearerOf line = some bearer)
    (hall : ∀ l ∈ lines, ∀ b, bearerOf l = some b → b = bearer) (b₀ : CString) :
    bearerAfter b₀ lines = bearer := by
  have hkeep : ∀ ls : List CString, (∀ l ∈ ls, ∀ b, bearerOf l = some b → b = bearer) →
      bearerAfter bearer ls = bearer := by
    intro ls
    induction ls with
    | nil => exact fun _ => rfl
    | cons l ls ih =>
      intro h
      have hl : (bearerOf l).getD bearer = bearer := by
        cases hb : bearerOf l with
        | none => rfl
        | some b => exact h l List.mem_cons_self b hb
      rw [bearerAfter, List.foldl_cons, hl]
      exact ih fun l' hl' => h l' (List.mem_cons_of_mem l hl')
  obtain ⟨before, after, rfl⟩ := List.append_of_mem hmem
  rw [bearerAfter, List.foldl_append, List.foldl_cons, hline, Option.getD_some]
  exact hkeep after fun l hl => hall l (List.mem_append_right _ (List.mem_cons_of_mem _ hl))

end Sshnack.Tui

import Sshnack.TuiRuns

/-!
# Well-formed states of the client

What `app.h` leaves implicit about `app_t`, for every state that a run reaches. A run always has a
state, that is, no handler indexes an array outside its bounds.
-/

namespace Sshnack.Tui

variable {a : App} {api : Api} {keypad : Keypad}

structure WellFormed (a : App) : Prop where
  selection : 0 < a.count → 0 ≤ a.selected ∧ a.selected < a.count ∧ a.products ≠ none
  empty : a.count = 0 → a.selected = 0
  prompt : a.mode = .prompt ↔ a.pending ≠ .none
  prompt_up : a.mode = .prompt → a.serverDown = false
  prompt_slot : a.mode = .prompt → a.pending = .restock ∨ a.pending = .price → 0 < a.count
  text : ∃ s, cstr a.promptBuf = some s ∧ s.length ≤ 15 ∧ ∀ c ∈ s, isDigit c = true ∨ c = 46
  konami : 0 ≤ a.konamiPos ∧ a.konamiPos ≤ 10

theorem Sound.wellFormed (h : Sound a) : WellFormed a where
  selection := by
    intro hpos
    rw [Int32.lt_iff_toInt_lt] at hpos
    have hpos' : 0 < a.count.toInt := hpos
    have hcount := h.shelf.count_eq
    have hlt := h.shelf.selected_lt
    rw [Int32.le_iff_toInt_le, Int32.lt_iff_toInt_lt]
    refine ⟨h.shelf.selected_nonneg, by omega, fun hnull => ?_⟩
    rw [hnull] at hcount
    simp only [Option.getD_none, List.length_nil] at hcount
    omega
  empty := by
    intro hzero
    have hcount := h.shelf.count_eq
    have h0 := h.shelf.selected_nonneg
    have hlt := h.shelf.selected_lt
    rw [hzero] at hcount
    have hlen : (0 : Int) = (a.products.getD []).length := hcount
    apply Int32.toInt_inj.1
    change a.selected.toInt = 0
    omega
  prompt := h.prompt_iff
  prompt_up := h.prompt_up
  prompt_slot := fun _ => h.prompt_slot
  text := by
    obtain ⟨s, hs, hamount⟩ := h.text
    exact ⟨s, hs, Nat.le_of_lt_succ (cstr_length hs), hamount⟩
  konami := h.konami

theorem konamiPos_of_completes {key : Int32} {a' : App} (hcode : CompletesKonami keypad key a)
    (h : appHandleKey keypad api key a = some a') : a'.konamiPos = 0 := by
  obtain ⟨fed, hfed, hedits⟩ := edits_appHandleKey h
  obtain ⟨window, pos, text, rfl, hpos⟩ := feedKonami_eq hfed
  exact hedits.konamiPos_eq.trans (hpos hcode)

/-- Every run in which each stock has at most 2^30 products reaches a well-formed state, and the
window is not full after a key that completes the code. -/
theorem wellFormed_of_smallStock (keypad : Keypad) (api : Api) (keys : List (Int32 × Api))
    (hsmall : ∀ next ∈ api :: keys.map Prod.snd, next.SmallStock) :
    ∃ a, feedKeys keypad keys (appInit api) = some a ∧ WellFormed a ∧
      ∀ (key : Int32) (next : Api) (a' : App), CompletesKonami keypad key a →
        appHandleKey keypad next key a = some a' → a'.konamiPos < 10 := by
  have hkeys : ∀ k ∈ keys, k.2.SmallStock := fun k hk =>
    hsmall k.2 (List.mem_cons_of_mem api (List.mem_map_of_mem hk))
  obtain ⟨a, ha, hsound⟩ := sound_run keypad (hsmall api List.mem_cons_self) hkeys
  refine ⟨a, ha, hsound.wellFormed, fun key next a' hcode hstep => ?_⟩
  rw [konamiPos_of_completes hcode hstep]
  decide

theorem smallStock_oneSlot : oneSlot.SmallStock := by
  rintro prods ⟨⟩
  decide

theorem wellFormed_of_smallStock_restockRun :
    (∀ next ∈ oneSlot :: restockRun.map Prod.snd, next.SmallStock) ∧
      ∃ a, feedKeys ncurses restockRun (appInit oneSlot) = some a ∧ WellFormed a := by
  have hsmall : ∀ next ∈ oneSlot :: restockRun.map Prod.snd, next.SmallStock := by
    intro next hnext
    simp only [restockRun, List.map_map, List.mem_cons, List.mem_map, Function.comp_apply] at hnext
    rcases hnext with rfl | ⟨_, _, rfl⟩ <;> exact smallStock_oneSlot
  obtain ⟨a, ha, hformed, _⟩ := wellFormed_of_smallStock ncurses oneSlot restockRun hsmall
  exact ⟨hsmall, a, ha, hformed⟩

/-! ### Too many products -/

/-- One step to the left of the first product and one to the right wrap to a negative selection. -/
theorem wrapped_negative {count : Int32} {len : ℕ} (hcount : count.toInt = len)
    (hlow : 2 ^ 30 < len) (hhigh : len < 2 ^ 31) :
    (((0 + -1 + count) % count + 1 + count) % count).toInt < 0 := by
  have hone : (1 : Int32).toInt = 1 := rfl
  have hminus : (0 + -1 : Int32).toInt = -1 := rfl
  have hback : ((0 + -1 + count) % count).toInt = len - 1 := by
    have hsum : (0 + -1 + count).toInt = -1 + len := by
      rw [Int32.toInt_add, hminus, hcount, Int.bmod_eq_of_le] <;> omega
    rw [Int32.toInt_mod, hsum, hcount, Int.tmod_eq_emod_of_nonneg (by omega),
      Int.emod_eq_of_lt (by omega) (by omega)]
    omega
  have hnext : ((0 + -1 + count) % count + 1).toInt = len := by
    rw [toInt_add_of_range, hback, hone] <;> omega
  have hforth : ((0 + -1 + count) % count + 1 + count).toInt = -(2 ^ 32 - 2 * len) := by
    rw [Int32.toInt_add, hnext, hcount, ← Int.sub_bmod_right, Int.bmod_eq_of_le] <;> omega
  rw [Int32.toInt_mod, hforth, hcount, Int.neg_tmod, Int.tmod_eq_emod_of_nonneg (by omega)]
  by_cases hthird : 2 ^ 32 - 2 * (len : Int) < len
  · rw [Int.emod_eq_of_lt (by omega) hthird]
    omega
  · rw [Int.emod_eq_sub_self_emod, Int.emod_eq_of_lt (by omega) (by omega)]
    omega

/-- The products are shown, the window has room and the server is up. -/
structure Ready (a : App) (count selected : Int32) : Prop where
  up : a.serverDown = false
  mode : a.mode = .browse
  konami : 0 ≤ a.konamiPos ∧ a.konamiPos ≤ 10
  count_eq : a.count = count
  selected_eq : a.selected = selected

theorem Ready.horizontal {count selected : Int32} (h : Ready a count selected) (hne : count ≠ 0)
    (keypad : Keypad) (api : Api) (key dir : Int32)
    (hkey : ∀ b, browseKey keypad api key b = some (moveHorizontal dir b)) :
    ∃ a', appHandleKey keypad api key a = some a' ∧
      Ready a' count ((selected + dir + count) % count) := by
  obtain ⟨fed, hfed, hpos⟩ := feedKonami_total h.konami keypad key
  obtain ⟨window, pos, text, rfl, _⟩ := feedKonami_eq hfed
  simp only [appHandleKey, hfed, Option.bind_eq_bind, Option.bind_some, h.up, h.mode, hkey,
    Bool.false_eq_true, reduceCtorEq, if_false]
  refine ⟨_, rfl, ?_⟩
  simp only [moveHorizontal, h.count_eq, h.selected_eq, if_neg hne]
  exact ⟨rfl, rfl, hpos, rfl, rfl⟩

theorem ready_appInit {prods : { products : List Product // products.length < 2 ^ 31 }} {bal : Int32}
    (hstock : api.getStock = .ok prods) (hbal : api.getBalance = .ok bal)
    (hpos : 0 < prods.1.length) : Ready (appInit api) (Int32.ofNat prods.1.length) 0 := by
  have hcount : (Int32.ofNat prods.1.length).toInt = prods.1.length :=
    Int32.toInt_ofNat_of_lt prods.2
  have hsome : ¬ Int32.ofNat prods.1.length ≤ 0 := by
    rw [Int32.le_iff_toInt_le, hcount]
    change ¬ (prods.1.length : Int) ≤ 0
    omega
  have hstart : 0 ≤ App.cleared.konamiPos ∧ App.cleared.konamiPos ≤ 10 := by decide
  simp only [appInit, appRefresh, refreshBalance, refreshStock, hstock, hbal, App.issue]
  exact ⟨rfl, rfl, hstart, rfl, if_neg hsome⟩

/-- With more than 2^30 products two keys are enough. -/
theorem not_wellFormed_of_largeStock (api : Api)
    {prods : { products : List Product // products.length < 2 ^ 31 }} {bal : Int32}
    (hstock : api.getStock = .ok prods) (hbal : api.getBalance = .ok bal)
    (hlarge : 2 ^ 30 < prods.1.length) :
    ∃ a, feedKeys ncurses [(ncurses.left, api), (ncurses.right, api)] (appInit api) = some a ∧
      ¬ WellFormed a := by
  have hcount : (Int32.ofNat prods.1.length).toInt = prods.1.length :=
    Int32.toInt_ofNat_of_lt prods.2
  have hne : Int32.ofNat prods.1.length ≠ 0 := by
    intro hzero
    rw [hzero] at hcount
    have hlen : (0 : Int) = prods.1.length := hcount
    omega
  obtain ⟨mid, hleft, hmid⟩ := (ready_appInit hstock hbal (by omega)).horizontal hne ncurses api
    ncurses.left (-1) (fun _ => rfl)
  obtain ⟨a, hright, ha⟩ := hmid.horizontal hne ncurses api ncurses.right 1 (fun _ => rfl)
  refine ⟨a, ?_, fun hformed => ?_⟩
  · simp [feedKeys, hleft, hright]
  · have hpos : 0 < a.count := by
      rw [ha.count_eq, Int32.lt_iff_toInt_lt, hcount]
      change (0 : Int) < prods.1.length
      omega
    have hsel := (hformed.selection hpos).1
    rw [ha.selected_eq, Int32.le_iff_toInt_le] at hsel
    have hneg := wrapped_negative hcount hlarge prods.2
    have hsel' : 0 ≤ (((0 + -1 + Int32.ofNat prods.1.length) % Int32.ofNat prods.1.length + 1 +
      Int32.ofNat prods.1.length) % Int32.ofNat prods.1.length).toInt := hsel
    omega

/-- A stock of 2^30 + 1 products. -/
def manyProducts : Api :=
  { oneSlot with
    getStock := .ok ⟨List.replicate (2 ^ 30 + 1) ⟨11, 1, 350, 4, ascii "Cola"⟩, by
      rw [List.length_replicate]
      decide⟩ }

theorem not_always_wellFormed :
    ¬ ∀ (keypad : Keypad) (api : Api) (keys : List (Int32 × Api)),
      ∃ a, feedKeys keypad keys (appInit api) = some a ∧ WellFormed a := by
  intro h
  obtain ⟨a, ha, hnot⟩ := not_wellFormed_of_largeStock manyProducts rfl rfl (by
    rw [List.length_replicate]
    decide)
  obtain ⟨a', ha', hformed⟩ := h ncurses manyProducts _
  rw [ha] at ha'
  cases ha'
  exact hnot hformed

end Sshnack.Tui

import Sshnack.ServiceCalls

/-!
# Which services can change a price

`product_update_price` has the only statement that writes to `items`. Every other service keeps the
prices it sees, whatever replies it gets (`KeepsPrices`), and a call of one leaves the visible items
alone unless it is a ROLLBACK. Of the operations only `orders_purchase` reads a price.
-/

namespace Sshnack

open Txn

/-- Statements that read or write a price. -/
def seesPrices : Stmt → Bool
  | .selectSlotItem _ => true
  | .selectProduct _ => true
  | .selectProductsAfter _ => true
  | .setPrice _ _ => true
  | _ => false

def setsPrice : Call Stmt → Bool
  | .step (.setPrice _ _) => true
  | _ => false

/-- A program that never steps the UPDATE of a price. -/
def KeepsPrices {α : Type} : Prog Stmt Row α → Prop
  | .ret _ => True
  | .call c next => setsPrice c = false ∧ ∀ r, KeepsPrices (next r)

/-- A program that steps no statement that reads or writes a price. -/
def IgnoresPrices {α : Type} : Prog Stmt Row α → Prop
  | .ret _ => True
  | .call c next => (∀ s, c = .step s → seesPrices s = false) ∧ ∀ r, IgnoresPrices (next r)

variable {s : Stmt} {c : Call Stmt} {rest : Service} {rc : Int32}

theorem IgnoresPrices.keeps {α : Type} {p : Prog Stmt Row α} (h : IgnoresPrices p) : KeepsPrices p := by
  induction p with
  | ret a => trivial
  | call c next ih =>
    refine ⟨?_, fun r => ih r (h.2 r)⟩
    cases c with
    | step s =>
      have hs := h.1 s rfl
      cases s with
      | setPrice price itemId => cases hs
      | _ => rfl
    | _ => rfl

theorem ignoresPrices_bind {α β : Type} {p : Prog Stmt Row α} {f : α → Prog Stmt Row β}
    (hp : IgnoresPrices p) (hf : ∀ a, IgnoresPrices (f a)) : IgnoresPrices (p >>= f) := by
  induction p with
  | ret a => exact hf a
  | call c next ih => exact ⟨hp.1, fun r => ih r (hp.2 r)⟩

theorem ignoresPrices_ite {α : Type} {b : Prop} [Decidable b] {p q : Prog Stmt Row α}
    (hp : IgnoresPrices p) (hq : IgnoresPrices q) : IgnoresPrices (if b then p else q) := by
  split_ifs
  · exact hp
  · exact hq

theorem ignoresPrices_step {α : Type} {next : Reply Row → Prog Stmt Row α} (hs : seesPrices s = false)
    (h : ∀ r, IgnoresPrices (next r)) : IgnoresPrices (.call (.step s) next) :=
  ⟨fun s' hs' => (by cases hs'; exact hs), h⟩

theorem ignoresPrices_prepare {α : Type} {next : Reply Row → Prog Stmt Row α}
    (h : ∀ r, IgnoresPrices (next r)) : IgnoresPrices (.call (.prepare s) next) :=
  ⟨fun _ hs' => (by cases hs'), h⟩

theorem ignoresPrices_rollbackAndFail (rc : Int32) : IgnoresPrices (rollbackAndFail rc) :=
  ⟨fun _ hs => (by cases hs), fun _ => trivial⟩

/-- A prepared and stepped statement, whose failure ends in ROLLBACK. -/
theorem ignoresPrices_guarded {x y : Reply Row} (hs : seesPrices s = false) (h : IgnoresPrices rest) :
    IgnoresPrices (.call (.prepare s) fun r => if r ≠ x then rollbackAndFail rc else
      .call (.step s) fun r => if r ≠ y then rollbackAndFail rc else rest) := by
  refine ignoresPrices_prepare fun _ => ignoresPrices_ite (ignoresPrices_rollbackAndFail rc) ?_
  exact ignoresPrices_step hs fun _ => ignoresPrices_ite (ignoresPrices_rollbackAndFail rc) h

theorem ignoresPrices_begin (h : IgnoresPrices rest) :
    IgnoresPrices (.call .begin fun r => if r ≠ .ok then .ret (.error rc) else rest) :=
  ⟨fun _ hs => (by cases hs), fun _ => ignoresPrices_ite trivial h⟩

theorem ignoresPrices_commit {a : Answer} : IgnoresPrices
    (.call .commit fun r => if r ≠ .ok then rollbackAndFail rc else .ret (.ok a)) :=
  ⟨fun _ hs => (by cases hs), fun _ => ignoresPrices_ite (ignoresPrices_rollbackAndFail rc) trivial⟩

theorem ignoresPrices_dbLogCashTransaction (userId amountGr : Int32) (type : TransactionType) :
    IgnoresPrices (dbLogCashTransaction userId amountGr type) := by
  simp only [dbLogCashTransaction, exec_bind, Prog.pure_eq]
  refine ignoresPrices_prepare fun _ => ignoresPrices_ite trivial ?_
  exact ignoresPrices_step rfl fun _ => ignoresPrices_ite trivial trivial

theorem ignoresPrices_dbLogStockChange (slotId changeQty : Int32) (type : ChangeType) :
    IgnoresPrices (dbLogStockChange slotId changeQty type) := by
  simp only [dbLogStockChange, exec_bind, Prog.pure_eq]
  refine ignoresPrices_prepare fun _ => ignoresPrices_ite trivial ?_
  refine ignoresPrices_step rfl fun r => ?_
  cases r with
  | row r =>
    refine ignoresPrices_prepare fun _ => ignoresPrices_ite trivial ?_
    exact ignoresPrices_step rfl fun _ => ignoresPrices_ite trivial trivial
  | ok => trivial
  | done => trivial
  | error => trivial

theorem ignoresPrices_logged {p : Prog Stmt Row Int32} {a : Answer} (hp : IgnoresPrices p) :
    IgnoresPrices (p >>= fun logged => if logged ≠ 0 then rollbackAndFail rc else
      .call .commit fun r => if r ≠ .ok then rollbackAndFail rc else .ret (.ok a)) := by
  apply ignoresPrices_bind hp
  intro logged
  exact ignoresPrices_ite (ignoresPrices_rollbackAndFail rc) ignoresPrices_commit

theorem ignoresPrices_balanceDeposit (userId amountGr : Int32) :
    IgnoresPrices (balanceDeposit userId amountGr) := by
  simp only [balanceDeposit, exec_bind, Prog.pure_eq]
  apply ignoresPrices_ite
  · trivial
  · apply ignoresPrices_begin
    apply ignoresPrices_guarded rfl
    exact ignoresPrices_logged (ignoresPrices_dbLogCashTransaction userId amountGr .deposit)

theorem ignoresPrices_balanceReset (userId : Int32) : IgnoresPrices (balanceReset userId) := by
  simp only [balanceReset, exec_bind, Prog.pure_eq]
  apply ignoresPrices_begin
  refine ignoresPrices_prepare fun _ => ignoresPrices_ite (ignoresPrices_rollbackAndFail (-1)) ?_
  refine ignoresPrices_step rfl fun r => ?_
  cases r with
  | ok => exact ignoresPrices_rollbackAndFail (-1)
  | error => exact ignoresPrices_rollbackAndFail (-1)
  | done => exact ignoresPrices_rollbackAndFail balanceNotFound
  | row r =>
    apply ignoresPrices_ite
    · exact ⟨fun _ hs => (by cases hs), fun _ => trivial⟩
    · apply ignoresPrices_guarded rfl
      exact ignoresPrices_logged (ignoresPrices_dbLogCashTransaction userId _ .withdrawal)

theorem ignoresPrices_productRestock (slotId qty : Int32) :
    IgnoresPrices (productRestock slotId qty) := by
  simp only [productRestock, exec_bind, Prog.pure_eq]
  apply ignoresPrices_ite
  · trivial
  · apply ignoresPrices_begin
    apply ignoresPrices_guarded rfl
    exact ignoresPrices_logged (ignoresPrices_dbLogStockChange slotId qty .addition)

theorem ignoresPrices_usersLookup (fingerprint : CString) :
    IgnoresPrices (usersLookup fingerprint) := by
  simp only [usersLookup, exec_bind, Prog.pure_eq]
  apply ignoresPrices_begin
  refine ignoresPrices_prepare fun _ => ignoresPrices_ite (ignoresPrices_rollbackAndFail (-1)) ?_
  refine ignoresPrices_step rfl fun r => ?_
  cases r with
  | ok => exact ignoresPrices_rollbackAndFail (-1)
  | error => exact ignoresPrices_rollbackAndFail (-1)
  | done => exact ignoresPrices_rollbackAndFail (-1)
  | row r => exact ignoresPrices_commit

/-- A purchase reads the price with its first statement and ignores prices from then on. -/
theorem ordersPurchase_looks (userId slotId : Int32) : ∃ next, (∀ r, IgnoresPrices (next r)) ∧
    ordersPurchase userId slotId = .call .begin fun r => if r ≠ .ok then .ret (.error (-1)) else
      .call (.prepare (.selectSlotItem slotId)) fun r => if r ≠ .ok then rollbackAndFail (-1) else
        .call (.step (.selectSlotItem slotId)) next := by
  simp only [ordersPurchase, exec_bind, Prog.pure_eq]
  refine ⟨_, fun r => ?_, rfl⟩
  cases r with
  | ok => exact ignoresPrices_rollbackAndFail (-1)
  | error => exact ignoresPrices_rollbackAndFail (-1)
  | done => exact ignoresPrices_rollbackAndFail (-1)
  | row item =>
    apply ignoresPrices_ite (ignoresPrices_rollbackAndFail (-1))
    refine ignoresPrices_prepare fun _ => ignoresPrices_ite (ignoresPrices_rollbackAndFail (-1)) ?_
    refine ignoresPrices_step rfl fun r => ?_
    cases r with
    | ok => exact ignoresPrices_rollbackAndFail (-1)
    | error => exact ignoresPrices_rollbackAndFail (-1)
    | done => exact ignoresPrices_rollbackAndFail (-1)
    | row user =>
      apply ignoresPrices_ite (ignoresPrices_rollbackAndFail (-1))
      apply ignoresPrices_guarded rfl
      apply ignoresPrices_guarded rfl
      apply ignoresPrices_guarded rfl
      exact ignoresPrices_logged (ignoresPrices_dbLogStockChange slotId (-1) .removal)

theorem keepsPrices_ite {α : Type} {b : Prop} [Decidable b] {p q : Prog Stmt Row α}
    (hp : KeepsPrices p) (hq : KeepsPrices q) : KeepsPrices (if b then p else q) := by
  split_ifs
  · exact hp
  · exact hq

theorem keepsPrices_ordersPurchase (userId slotId : Int32) :
    KeepsPrices (ordersPurchase userId slotId) := by
  obtain ⟨next, hnext, heq⟩ := ordersPurchase_looks userId slotId
  rw [heq]
  refine ⟨rfl, fun _ => keepsPrices_ite trivial ⟨rfl, fun _ => keepsPrices_ite ?_ ⟨rfl, fun r => ?_⟩⟩⟩
  · exact (ignoresPrices_rollbackAndFail (-1)).keeps
  · exact (hnext r).keeps

theorem TxnOp.keepsPrices (op : TxnOp) : KeepsPrices op.prog := by
  cases op with
  | ordersPurchase userId slotId => exact keepsPrices_ordersPurchase userId slotId
  | balanceDeposit userId amountGr => exact (ignoresPrices_balanceDeposit userId amountGr).keeps
  | balanceReset userId => exact (ignoresPrices_balanceReset userId).keeps
  | productRestock slotId qty => exact (ignoresPrices_productRestock slotId qty).keeps
  | usersLookup fingerprint => exact (ignoresPrices_usersLookup fingerprint).keeps

theorem keepsPrices_productsLoop (rows : ℕ) (last : Option Int) (products : List Product) :
    KeepsPrices (productsLoop rows last products) := by
  induction rows generalizing last products with
  | zero => trivial
  | succ rows ih =>
    simp only [productsLoop, exec_bind, Prog.pure_eq]
    refine ⟨rfl, fun r => ?_⟩
    cases r with
    | row r => exact ih _ _
    | ok => trivial
    | done => trivial
    | error => trivial

theorem keepsPrices_productsList (rows : ℕ) : KeepsPrices (productsList rows) := by
  simp only [productsList, exec_bind, Prog.pure_eq]
  exact ⟨rfl, fun _ => keepsPrices_ite trivial (keepsPrices_productsLoop rows none [])⟩

theorem keepsPrices_balanceGet (userId : Int32) : KeepsPrices (balanceGet userId) := by
  simp only [balanceGet, exec_bind, Prog.pure_eq]
  refine ⟨rfl, fun _ => keepsPrices_ite trivial ⟨rfl, fun r => ?_⟩⟩
  cases r <;> trivial

theorem keepsPrices_productGet (slotId : Int32) : KeepsPrices (productGet slotId) := by
  simp only [productGet, exec_bind, Prog.pure_eq]
  refine ⟨rfl, fun _ => keepsPrices_ite trivial ⟨rfl, fun r => ?_⟩⟩
  cases r <;> trivial

theorem ReadOp.keepsPrices (op : ReadOp) : KeepsPrices op.prog := by
  cases op with
  | balanceGet userId => exact keepsPrices_balanceGet userId
  | productsList rows => exact keepsPrices_productsList rows
  | productGet slotId => exact keepsPrices_productGet slotId

/-- A statement other than the UPDATE of a price leaves the items alone. -/
theorem perform_items {s : Stmt} {d d' : Db} {o : Option Row} (hs : setsPrice (.step s) = false)
    (h : Stmt.perform s d = some (d', o)) : d'.items = d.items := by
  have hcheck : ∀ {t : Tables} {o' : Option Row},
      t.check.map (fun d' => (d', o')) = some (d', o) → d'.toTables = t := by
    intro t o' ht
    obtain ⟨d₁, hd₁, heq⟩ := Option.map_eq_some_iff.1 ht
    obtain ⟨rfl, _⟩ := Prod.mk.inj heq
    exact Tables.check_eq_some_iff.1 hd₁
  have hquery : ∀ {o' : Option Row}, some (d, o') = some (d', o) → d'.items = d.items := by
    intro o' heq
    obtain ⟨rfl, _⟩ := Prod.mk.inj (Option.some.inj heq)
    rfl
  cases s with
  | setPrice price itemId => cases hs
  | upsertBalance userId amount =>
    obtain ⟨us, n, husers⟩ := d.upsertBalance_frame userId.toInt amount.toInt
    rw [hcheck h, husers]
  | upsertFingerprint f =>
    obtain ⟨us, n, husers⟩ := d.upsertFingerprint_frame f
    rw [hcheck h, husers]
  | selectSlotItem slotId => exact hquery h
  | selectBalance userId => exact hquery h
  | selectStockItem slotId => exact hquery h
  | selectProduct slotId => exact hquery h
  | selectProductsAfter last => exact hquery h
  | debitBalance price userId => rw [hcheck h]; rfl
  | decrementStock slotId => rw [hcheck h]; rfl
  | insertPurchase userId itemId totalAmount => rw [hcheck h]; rfl
  | insertCash type userId totalAmount => rw [hcheck h]; rfl
  | insertStockLog itemId type quantityChanged => rw [hcheck h]; rfl
  | zeroBalance userId => rw [hcheck h]; rfl
  | addStock qty slotId => rw [hcheck h]; rfl

/-- A call that sets no price leaves the visible items alone, if it does not roll price changes
back. -/
theorem answer_items {c : Call Stmt} (hc : setsPrice c = false) (fault : Bool) {k : Conn Db}
    (hsafe : c = .rollback → ∀ d ∈ k.txn, d.items = k.committed.items) :
    (k.answer Stmt.perform fault c).2.view.items = k.view.items := by
  cases fault with
  | true => rfl
  | false =>
    cases c with
    | begin => rcases k with ⟨d₀, _ | d⟩ <;> rfl
    | commit => rcases k with ⟨d₀, _ | d⟩ <;> rfl
    | prepare s => rfl
    | rollback =>
      rcases k with ⟨d₀, _ | d⟩
      · rfl
      · exact (hsafe rfl d rfl).symm
    | step s =>
      rw [Conn.answer_quiet]
      rcases hs : Stmt.perform s k.view with _ | ⟨d', _ | r⟩
      · rw [Conn.perform_step_none hs]
      · rw [Conn.perform_step_done hs, Conn.view_write]
        exact perform_items hc hs
      · rw [Conn.perform_step_row hs, Conn.view_write]
        exact perform_items hc hs

end Sshnack

import Sshnack.Services
import Sshnack.TxnInterleaving

/-!
# The services keep the transaction discipline

The five operations that open a transaction are bracketed: each exit behind a successful BEGIN is a
COMMIT answered `ok` or goes through ROLLBACK. The readers and `product_update_price` never touch
transaction control.
-/

namespace Sshnack

open Txn

variable {c : Call Stmt} {rest : Service} {rc : Int32}

theorem aborts_rollbackAndFail (rc : Int32) : Aborts (rollbackAndFail rc) :=
  ⟨rc, fun _ => .ret (.error rc), rfl, fun _ => rfl⟩

theorem inTxn_rollbackAndFail (rc : Int32) : InTxn (rollbackAndFail rc) :=
  (aborts_rollbackAndFail rc).inTxn

theorem inTxn_ite {b : Prop} [Decidable b] {p q : Service} (hp : InTxn p) (hq : InTxn q) :
    InTxn (if b then p else q) := by
  split_ifs
  · exact hp
  · exact hq

theorem reading_ite {b : Prop} [Decidable b] {p q : Service} (hp : Reading Stmt.perform p)
    (hq : Reading Stmt.perform q) : Reading Stmt.perform (if b then p else q) := by
  split_ifs
  · exact hp
  · exact hq

theorem plain_ite {b : Prop} [Decidable b] {p q : Service} (hp : Plain p) (hq : Plain q) :
    Plain (if b then p else q) := by
  split_ifs
  · exact hp
  · exact hq

theorem inTxn_prepare {s : Stmt} (h : InTxn rest) :
    InTxn (.call (.prepare s) fun r => if r ≠ .ok then rollbackAndFail rc else rest) :=
  ⟨aborts_rollbackAndFail rc, fun _ => inTxn_ite (inTxn_rollbackAndFail rc) h⟩

theorem inTxn_step {s : Stmt} (h : InTxn rest) :
    InTxn (.call (.step s) fun r => if r ≠ .done then rollbackAndFail rc else rest) :=
  ⟨aborts_rollbackAndFail rc, fun _ => inTxn_ite (inTxn_rollbackAndFail rc) h⟩

theorem inTxn_commit (a : Answer) : InTxn
    (.call .commit fun r => if r ≠ .ok then rollbackAndFail rc else .ret (.ok a)) := by
  refine ⟨⟨a, rfl⟩, fun r hr => ?_⟩
  simpa only [if_pos hr] using aborts_rollbackAndFail rc

/-- A step that must return a row. -/
theorem inTxn_row (rc : Int32) {s : Stmt} {f : Reply Row → Service}
    (hbad : ∀ r, (∀ row, r ≠ .row row) → f r = rollbackAndFail rc) (h : ∀ row, InTxn (f (.row row))) :
    InTxn (.call (.step s) f) := by
  have hfail : ∀ r, (∀ row, r ≠ .row row) → Aborts (f r) := fun r hr => by
    rw [hbad r hr]
    exact aborts_rollbackAndFail rc
  refine ⟨hfail .error (by simp), fun r => ?_⟩
  cases r with
  | row row => exact h row
  | ok => exact (hfail .ok (by simp)).inTxn
  | done => exact (hfail .done (by simp)).inTxn
  | error => exact (hfail .error (by simp)).inTxn

theorem inTxn_dbLogCashTransaction {userId amountGr : Int32} {type : TransactionType}
    {k : Int32 → Service} (hbad : Aborts (k (-1))) (h : InTxn (k 0)) :
    InTxn (dbLogCashTransaction userId amountGr type >>= k) := by
  simp only [dbLogCashTransaction, exec_bind, Prog.call_bind, Prog.ite_bind, Prog.pure_eq,
    Prog.ret_bind]
  exact ⟨hbad, fun _ => inTxn_ite hbad.inTxn ⟨hbad, fun _ => inTxn_ite hbad.inTxn h⟩⟩

theorem inTxn_dbLogStockChange {slotId changeQty : Int32} {type : ChangeType} {k : Int32 → Service}
    (hbad : Aborts (k (-1))) (h : InTxn (k 0)) :
    InTxn (dbLogStockChange slotId changeQty type >>= k) := by
  simp only [dbLogStockChange, exec_bind, Prog.call_bind, Prog.ite_bind, Prog.pure_eq,
    Prog.ret_bind]
  refine ⟨hbad, fun _ => inTxn_ite hbad.inTxn ⟨hbad, fun r => ?_⟩⟩
  cases r with
  | ok => exact hbad.inTxn
  | done => exact hbad.inTxn
  | error => exact hbad.inTxn
  | row r =>
    simp only [Prog.call_bind, Prog.ite_bind, Prog.ret_bind]
    exact ⟨hbad, fun _ => inTxn_ite hbad.inTxn ⟨hbad, fun _ => inTxn_ite hbad.inTxn h⟩⟩

theorem bracketed_begin (h : InTxn rest) :
    Bracketed (.call .begin fun r => if r ≠ .ok then .ret (.error rc) else rest) :=
  ⟨fun r hr => ⟨rc, if_pos hr⟩, by simpa using h⟩

theorem bracketed_balanceDeposit (userId amountGr : Int32) :
    Bracketed (balanceDeposit userId amountGr) := by
  simp only [balanceDeposit, exec_bind, Prog.pure_eq]
  split_ifs
  · exact ⟨_, rfl⟩
  · apply bracketed_begin
    apply inTxn_prepare
    apply inTxn_step
    apply inTxn_dbLogCashTransaction
    · exact aborts_rollbackAndFail (-1)
    · exact inTxn_commit _

theorem bracketed_balanceReset (userId : Int32) : Bracketed (balanceReset userId) := by
  simp only [balanceReset, exec_bind, Prog.pure_eq]
  apply bracketed_begin
  apply inTxn_prepare
  refine ⟨aborts_rollbackAndFail (-1), fun r => ?_⟩
  cases r with
  | ok => exact inTxn_rollbackAndFail (-1)
  | error => exact inTxn_rollbackAndFail (-1)
  | done => exact inTxn_rollbackAndFail balanceNotFound
  | row r =>
    refine inTxn_ite ⟨_, fun _ => rfl⟩ ?_
    apply inTxn_prepare
    apply inTxn_step
    apply inTxn_dbLogCashTransaction
    · exact aborts_rollbackAndFail (-1)
    · exact inTxn_commit _

theorem bracketed_ordersPurchase (userId slotId : Int32) :
    Bracketed (ordersPurchase userId slotId) := by
  simp only [ordersPurchase, exec_bind, Prog.pure_eq]
  apply bracketed_begin
  apply inTxn_prepare
  refine inTxn_row (-1) (fun r hr => ?_) fun item => ?_
  · cases r <;> first | rfl | exact absurd rfl (hr _)
  refine inTxn_ite (inTxn_rollbackAndFail (-1)) ?_
  apply inTxn_prepare
  refine inTxn_row (-1) (fun r hr => ?_) fun user => ?_
  · cases r <;> first | rfl | exact absurd rfl (hr _)
  refine inTxn_ite (inTxn_rollbackAndFail (-1)) ?_
  apply inTxn_prepare
  apply inTxn_step
  apply inTxn_prepare
  apply inTxn_step
  apply inTxn_prepare
  apply inTxn_step
  apply inTxn_dbLogStockChange
  · exact aborts_rollbackAndFail (-1)
  · exact inTxn_commit _

theorem bracketed_productRestock (slotId qty : Int32) : Bracketed (productRestock slotId qty) := by
  simp only [productRestock, exec_bind, Prog.pure_eq]
  split_ifs
  · exact ⟨_, rfl⟩
  · apply bracketed_begin
    apply inTxn_prepare
    apply inTxn_step
    apply inTxn_dbLogStockChange
    · exact aborts_rollbackAndFail (-1)
    · exact inTxn_commit _

theorem bracketed_usersLookup (fingerprint : CString) : Bracketed (usersLookup fingerprint) := by
  simp only [usersLookup, exec_bind, Prog.pure_eq]
  apply bracketed_begin
  apply inTxn_prepare
  refine inTxn_row (-1) (fun r hr => ?_) fun row => ?_
  · cases r <;> first | rfl | exact absurd rfl (hr _)
  · exact inTxn_commit _

theorem plain_productUpdatePrice (itemId priceGr : Int32) :
    Plain (productUpdatePrice itemId priceGr) := by
  simp only [productUpdatePrice, exec_bind, Prog.pure_eq]
  exact plain_ite trivial fun _ => plain_ite trivial fun _ => plain_ite trivial trivial

theorem reading_balanceGet (userId : Int32) : Reading Stmt.perform (balanceGet userId) := by
  simp only [balanceGet, exec_bind, Prog.pure_eq]
  refine fun _ => reading_ite trivial ⟨fun d d' o h => ?_, fun r => ?_⟩
  · simp only [Stmt.perform, Option.some.injEq, Prod.mk.injEq] at h
    exact h.1.symm
  · cases r <;> trivial

theorem reading_productGet (slotId : Int32) : Reading Stmt.perform (productGet slotId) := by
  simp only [productGet, exec_bind, Prog.pure_eq]
  refine fun _ => reading_ite trivial ⟨fun d d' o h => ?_, fun r => ?_⟩
  · simp only [Stmt.perform, Option.some.injEq, Prod.mk.injEq] at h
    exact h.1.symm
  · cases r <;> trivial

theorem reading_productsLoop (rows : ℕ) (last : Option Int) (products : List Product) :
    Reading Stmt.perform (productsLoop rows last products) := by
  induction rows generalizing last products with
  | zero => trivial
  | succ rows ih =>
    simp only [productsLoop, exec_bind, Prog.pure_eq]
    refine ⟨fun d d' o h => ?_, fun r => ?_⟩
    · simp only [Stmt.perform, Option.some.injEq, Prod.mk.injEq] at h
      exact h.1.symm
    · cases r with
      | row r => exact ih _ _
      | ok => trivial
      | done => trivial
      | error => trivial

theorem reading_productsList (rows : ℕ) : Reading Stmt.perform (productsList rows) := by
  simp only [productsList, exec_bind, Prog.pure_eq]
  exact fun _ => reading_ite trivial (reading_productsLoop rows none [])

end Sshnack

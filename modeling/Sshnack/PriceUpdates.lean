import Sshnack.PriceReplay
import Sshnack.Seed

/-!
# Price updates on the shared handle

Once every call has returned, the items that the updates built up are committed: the updates that
returned 0 are those performed, and each item has the price of the last one for it.
-/

namespace Sshnack

open Txn Machine

variable {ι : Type} [DecidableEq ι]

def served (calls : ι → ServiceCall) (db : Db) (sched : List (ι × Bool)) : Workers ι :=
  run (World.turn Stmt.perform) (serving calls db) sched

/-- The successful UPDATEs of prices, in the order in which they were performed. -/
def priceWrites (calls : ι → ServiceCall) (db : Db) (sched : List (ι × Bool)) :
    List (PriceWrite ι) :=
  (trace (World.turn Stmt.perform) priceWrite (serving calls db) sched).flatten

def lastWrite (ws : List (PriceWrite ι)) (id : Int) : Option (PriceWrite ι) :=
  (ws.filter fun e => e.itemId.toInt = id).getLast?

/-- No transaction is left open, the updates that returned 0 are those performed, and each item has the
price of the last one for it. -/
structure PricesKept (calls : ι → ServiceCall) (ws : List (PriceWrite ι)) (w : Workers ι) : Prop where
  closed : w.conn.txn = none
  returned : ∀ i itemId priceGr, calls i = .updatePrice itemId priceGr →
    ((w.prog i).result = some (.ok (.code 0)) ↔ ⟨i, itemId, priceGr⟩ ∈ ws)
  performed : ∀ e ∈ ws, calls e.thread = .updatePrice e.itemId e.priceGr
  prices : ∀ item ∈ w.conn.committed.items, ∀ e, lastWrite ws item.itemId = some e →
    item.price = e.priceGr.toInt

omit [DecidableEq ι] in
theorem lastWrite_snoc (ws : List (PriceWrite ι)) (e : PriceWrite ι) (id : Int) :
    lastWrite (ws ++ [e]) id = if e.itemId.toInt = id then some e else lastWrite ws id := by
  unfold lastWrite
  rw [List.filter_append]
  by_cases he : e.itemId.toInt = id
  · simp [he]
  · simp [he]

omit [DecidableEq ι] in
theorem price_of_replay (ws : List (PriceWrite ι)) (items : List Item) :
    ∀ item ∈ replayPrices ws items, ∀ e, lastWrite ws item.itemId = some e →
      item.price = e.priceGr.toInt := by
  induction ws using List.reverseRecOn with
  | nil =>
    intro item _ e he
    cases he
  | append_singleton ws w ih =>
    intro item hitem e he
    rw [replayPrices, List.foldl_append] at hitem
    obtain ⟨old, hold, rfl⟩ := List.mem_map.1 hitem
    rw [lastWrite_snoc] at he
    by_cases hid : old.itemId = w.itemId.toInt
    · simp only [hid, if_true, Option.some.injEq] at he ⊢
      rw [he]
    · have hne : ¬ w.itemId.toInt = old.itemId := fun h => hid h.symm
      simp only [if_neg hid, if_neg hne] at he ⊢
      exact ih old hold e he

theorem ServiceCall.bracketed_or_plain (call : ServiceCall) :
    Bracketed call.prog ∨ Plain call.prog := by
  cases call with
  | txn op => exact .inl op.bracketed
  | updatePrice itemId priceGr => exact .inr (plain_productUpdatePrice itemId priceGr)
  | read op => exact .inr op.reading.plain

theorem UpdaterAt.result {itemId priceGr : Int32} {p : Service} {b : Bool}
    (h : UpdaterAt itemId priceGr p b) (hret : p.result.isSome = true) :
    p.result = some (.ok (.code 0)) ↔ b = true := by
  cases h with
  | starting =>
    rcases productUpdatePrice_cases itemId priceGr with ⟨rc, hrc⟩ | ⟨next', hcall, hnext⟩
    · rw [hrc]
      simp [Prog.result]
    · rw [hcall] at hret
      cases hret
  | prepared next hdone hbad => cases hret
  | failed rc => simp [Prog.result]
  | written => simp [Prog.result]

/-- If no ROLLBACK undoes a change of the items, then once every call has returned no price update
is lost. -/
theorem pricesKept_of_priceSafe (calls : ι → ServiceCall) (db : Db) (sched : List (ι × Bool))
    (hsafe : Meets (World.turn Stmt.perform) PriceSafe (serving calls db) sched)
    (hall : ∀ i, ((served calls db sched).prog i).result.isSome = true) :
    PricesKept calls (priceWrites calls db sched) (served calls db sched) := by
  have hreplayed : Replayed calls db (priceWrites calls db sched) (served calls db sched) := by
    have hstart : Replayed calls db ([] : List (List (PriceWrite ι))).flatten (serving calls db) :=
      replayed_start calls db
    have hstep : ∀ wss w x, Replayed calls db wss.flatten w → PriceSafe w x →
        Replayed calls db (wss ++ [priceWrite w x]).flatten (w.turn Stmt.perform x) := by
      intro wss w x h hx
      rw [List.flatten_append, List.flatten_singleton]
      exact h.turn hx
    have hrun := trace_invariant (I := fun wss w => Replayed calls db wss.flatten w) hstep hstart
      hsafe
    rw [List.nil_append] at hrun
    exact hrun
  have htidy : Tidy (fun i => (calls i).prog) (served calls db sched) :=
    run_invariant_of_step (fun w x h => h.turn Stmt.perform x)
      (tidy_start (fun i => (calls i).bracketed_or_plain) db) sched
  have hclosed := htidy.closed hall
  refine ⟨hclosed, ?_, hreplayed.performed, ?_⟩
  · intro i itemId priceGr hcall
    have hat := hreplayed.updating i itemId priceGr hcall
    rw [hat.result (hall i), decide_eq_true_eq]
  · have hitems := hreplayed.items
    have hview : (served calls db sched).conn.view = (served calls db sched).conn.committed := by
      rw [Conn.view, hclosed]
      rfl
    rw [hview] at hitems
    rw [hitems]
    exact price_of_replay _ _

/-- A purchase by a user that does not exist, and a new price for item 1. -/
def purchaseAndUpdate : Bool → ServiceCall
  | false => .txn (.ordersPurchase 1 11)
  | true => .updatePrice 1 999

/-- The price is set before the purchase begins. -/
theorem pricesKept_update_first : PricesKept purchaseAndUpdate
    (priceWrites purchaseAndUpdate seed
      (List.replicate 2 (true, false) ++ List.replicate 6 (false, false)))
    (served purchaseAndUpdate seed
      (List.replicate 2 (true, false) ++ List.replicate 6 (false, false))) :=
  pricesKept_of_priceSafe purchaseAndUpdate seed _ (by decide) (by decide)

/-- The price is set after the purchase began: when it rolls back, the update is lost. -/
theorem pricesKept_not_always : ¬ ∀ (calls : Bool → ServiceCall) (db : Db)
    (sched : List (Bool × Bool)), (∀ i, ((served calls db sched).prog i).result.isSome = true) →
      PricesKept calls (priceWrites calls db sched) (served calls db sched) := by
  intro h
  have hkept := h purchaseAndUpdate seed
    ((false, false) :: (List.replicate 2 (true, false) ++ List.replicate 5 (false, false)))
    (by decide)
  have hprice := hkept.prices ⟨1, ascii "Cola Classic", 500⟩ (by decide)
    ⟨true, 1, 999⟩ (by decide)
  exact absurd hprice (by decide)

end Sshnack

import Sshnack.PriceUpdates
import Sshnack.ServiceChecks
import Sshnack.StockLedger
import Sshnack.TxnOrder

/-!
# Everything on the shared handle

All services at once: operations, readers and `product_update_price`, whose UPDATE joins whatever
transaction is open on the handle. Only `orders_purchase` looks at a price, with its first statement,
and every other statement of an operation commutes with the UPDATE. So in every undisturbed interleaving
the committed database is one that the calls produce one after another.
-/

namespace Sshnack

open Txn Machine

namespace Tables

/-- Whether a statement was accepted does not depend on the prices. -/
theorem check_updatePrice {t : Tables} {d : Db} (hitems : t.items = d.items) (itemId priceGr : Int32)
    {h : ∀ d : Db, (d.updatePrice itemId.toInt priceGr.toInt).Valid} :
    (t.updatePrice itemId.toInt priceGr.toInt).check =
      t.check.map fun d => ⟨d.updatePrice itemId.toInt priceGr.toInt, h d⟩ := by
  have hids : (t.updatePrice itemId.toInt priceGr.toInt).itemIds = t.itemIds :=
    itemIds_updatePrice t _ _
  by_cases ht : t.Valid
  · rw [check_of_valid ht, check_of_valid (valid_updatePrice ht _ (inInt64_toInt priceGr))]
    rfl
  · have hnot : ¬ (t.updatePrice itemId.toInt priceGr.toInt).Valid := by
      intro hv
      apply ht
      have hitems' := d.valid.items
      refine ⟨⟨hv.users.key, hv.users.unique, hv.users.check, hv.users.range, hv.users.sequence⟩,
        ⟨?_, ?_⟩, ⟨hv.stock.key, hv.stock.check, hv.stock.range, ?_⟩,
        ⟨hv.transactions.check, hv.transactions.range, hv.transactions.user, ?_⟩,
        ⟨hv.stockLogs.check, hv.stockLogs.range, ?_⟩⟩
      · rw [itemIds, hitems]
        exact hitems'.key
      · rw [hitems]
        exact hitems'.range
      · rw [← hids]
        exact hv.stock.item
      · rw [← hids]
        exact hv.transactions.item
      · rw [← hids]
        exact hv.stockLogs.item
    rw [check, check, dif_neg ht, dif_neg hnot]
    rfl

end Tables

def Db.reprice (d : Db) (itemId priceGr : Int32) : Db :=
  ⟨d.updatePrice itemId.toInt priceGr.toInt,
    Tables.valid_updatePrice d.valid itemId.toInt (inInt64_toInt priceGr)⟩

theorem perform_setPrice (d : Db) (itemId priceGr : Int32) :
    Stmt.perform (.setPrice priceGr itemId) d = some (d.reprice itemId priceGr, none) := by
  have hcheck : (d.updatePrice itemId.toInt priceGr.toInt).check = some (d.reprice itemId priceGr) :=
    Tables.check_eq_some_iff.2 rfl
  simp only [Stmt.perform, hcheck, Option.map_some]

/-- What a call does to the data outside a transaction of its own. -/
def ServiceCall.writes : ServiceCall → Db → Db
  | .updatePrice itemId priceGr, d => d.reprice itemId priceGr
  | _, d => d

section Commuting

variable {s : Stmt} {itemId priceGr : Int32}

/-- A statement that changes the tables by `g`, which neither reads nor writes the prices. -/
theorem commutes_write {g : Tables → Tables} {o : Tables → Option Row}
    (hs : ∀ d : Db, Stmt.perform s d = (g d.toTables).check.map fun d' => (d', o d.toTables))
    (hitems : ∀ t, (g t).items = t.items)
    (hg : ∀ t, g (t.updatePrice itemId.toInt priceGr.toInt) =
      (g t).updatePrice itemId.toInt priceGr.toInt)
    (ho : ∀ t, o (t.updatePrice itemId.toInt priceGr.toInt) = o t) :
    Commutes Stmt.perform s fun d => d.reprice itemId priceGr := by
  intro d
  have hcheck := Tables.check_updatePrice (hitems d.toTables) itemId priceGr
    (h := fun d => (d.reprice itemId priceGr).valid)
  simp only [hs, Db.reprice, hg, ho, hcheck, Option.map_map]
  rfl

theorem commutes_reprice (hs : seesPrices s = false) :
    Commutes Stmt.perform s fun d => d.reprice itemId priceGr := by
  have hwrite : ∀ {g : Tables → Tables},
      (∀ d : Db, Stmt.perform s d = (g d.toTables).check.map fun d' => (d', none)) →
      (∀ t, (g t).items = t.items) →
      (∀ t, g (t.updatePrice itemId.toInt priceGr.toInt) =
        (g t).updatePrice itemId.toInt priceGr.toInt) →
      Commutes Stmt.perform s fun d => d.reprice itemId priceGr :=
    fun hs hitems hg => commutes_write (o := fun _ => none) hs hitems hg fun _ => rfl
  cases s with
  | selectSlotItem slotId => cases hs
  | selectProduct slotId => cases hs
  | selectProductsAfter last => cases hs
  | setPrice price itemId => cases hs
  | selectBalance userId => exact fun d => rfl
  | selectStockItem slotId => exact fun d => rfl
  | debitBalance price userId =>
    exact hwrite (g := fun t => t.updateBalance userId.toInt (· - price.toInt)) (fun _ => rfl)
      (fun _ => rfl) fun _ => rfl
  | decrementStock slotId =>
    exact hwrite (g := fun t => t.updateQuantity slotId.toInt (· - 1)) (fun _ => rfl)
      (fun _ => rfl) fun _ => rfl
  | insertPurchase userId itemId totalAmount =>
    exact hwrite (g := fun t => t.insertTransaction _) (fun _ => rfl) (fun _ => rfl) fun _ => rfl
  | insertCash type userId totalAmount =>
    exact hwrite (g := fun t => t.insertTransaction _) (fun _ => rfl) (fun _ => rfl) fun _ => rfl
  | insertStockLog itemId type quantityChanged =>
    exact hwrite (g := fun t => t.insertLog _) (fun _ => rfl) (fun _ => rfl) fun _ => rfl
  | zeroBalance userId =>
    exact hwrite (g := fun t => t.updateBalance userId.toInt fun _ => 0) (fun _ => rfl)
      (fun _ => rfl) fun _ => rfl
  | addStock qty slotId =>
    exact hwrite (g := fun t => t.updateQuantity slotId.toInt (· + qty.toInt)) (fun _ => rfl)
      (fun _ => rfl) fun _ => rfl
  | upsertBalance userId amount =>
    apply hwrite (g := fun t => t.upsertBalance userId.toInt amount.toInt) (fun _ => rfl)
    · intro t
      obtain ⟨us, n, h⟩ := t.upsertBalance_frame userId.toInt amount.toInt
      rw [h]
    · intro t
      have hfind : (t.updatePrice itemId.toInt priceGr.toInt).findUser userId.toInt =
          t.findUser userId.toInt := rfl
      simp only [Tables.upsertBalance, hfind]
      cases t.findUser userId.toInt <;> rfl
  | upsertFingerprint fp =>
    have hfind : ∀ t : Tables, (t.updatePrice itemId.toInt priceGr.toInt).findFingerprint fp =
        t.findFingerprint fp := fun _ => rfl
    apply commutes_write (g := fun t => (t.upsertFingerprint fp).1)
      (o := fun t => some [.int (t.upsertFingerprint fp).2]) (fun _ => rfl)
    · intro t
      obtain ⟨us, n, h⟩ := t.upsertFingerprint_frame fp
      rw [h]
    · intro t
      simp only [Tables.upsertFingerprint, hfind]
      cases t.findFingerprint fp <;> rfl
    · intro t
      simp only [Tables.upsertFingerprint, hfind]
      cases t.findFingerprint fp <;> rfl

theorem commutes_writes (hs : seesPrices s = false) (call : ServiceCall) :
    Commutes Stmt.perform s call.writes := by
  cases call with
  | updatePrice itemId priceGr => exact commutes_reprice hs
  | _ =>
    intro d
    rcases h : Stmt.perform s d with _ | ⟨d', o⟩
    · exact h
    · exact h

end Commuting

/-! ### The services -/

section Services

variable {ι : Type} (calls : ι → ServiceCall)

/-- What each thread does to the data outside a transaction of its own. -/
abbrev writesOf (i : ι) : Db → Db := (calls i).writes

variable {calls}

theorem IgnoresPrices.blind {α : Type} {p : Prog Stmt Row α} (h : IgnoresPrices p) :
    Blind Stmt.perform (writesOf calls) p := by
  induction p with
  | ret a => trivial
  | call c next ih =>
    cases c with
    | step s => exact ⟨fun j => commutes_writes (h.1 s rfl) (calls j), fun r => ih r (h.2 r)⟩
    | begin => exact fun r => ih r (h.2 r)
    | commit => exact fun r => ih r (h.2 r)
    | rollback => exact fun r => ih r (h.2 r)
    | prepare s => exact fun r => ih r (h.2 r)

theorem looksFirst_ordersPurchase (userId slotId : Int32) :
    LooksFirst Stmt.perform (writesOf calls) (ordersPurchase userId slotId) := by
  obtain ⟨next, hnext, heq⟩ := ordersPurchase_looks userId slotId
  rw [heq]
  intro r
  dsimp only
  split_ifs
  · trivial
  · intro r'
    dsimp only
    split_ifs
    · exact fun _ => trivial
    · refine ⟨fun d d' o h => ?_, fun r => (hnext r).blind⟩
      simp only [Stmt.perform, Option.some.injEq, Prod.mk.injEq] at h
      exact h.1.symm

theorem stray_productUpdatePrice (itemId priceGr : Int32) :
    Stray Stmt.perform (fun d => d.reprice itemId priceGr) (productUpdatePrice itemId priceGr) := by
  simp only [productUpdatePrice, exec_bind, Prog.pure_eq]
  split_ifs
  · exact ⟨_, rfl⟩
  · refine ⟨fun r hr => ⟨-1, if_pos hr⟩, ?_⟩
    exact ⟨fun d => perform_setPrice d itemId priceGr, ⟨_, rfl⟩, fun r hr => ⟨-1, if_pos hr⟩⟩

theorem kinds_services (calls : ι → ServiceCall) :
    Kinds Stmt.perform (fun i => (calls i).prog) (writesOf calls) := by
  intro i
  have hwrites : writesOf calls i = (calls i).writes := rfl
  dsimp only
  rw [hwrites]
  cases hcall : calls i with
  | txn op =>
    refine .inl ⟨op.bracketed, ?_⟩
    cases op with
    | ordersPurchase userId slotId => exact .inl (looksFirst_ordersPurchase userId slotId)
    | balanceDeposit userId amountGr => exact .inr (ignoresPrices_balanceDeposit userId amountGr).blind
    | balanceReset userId => exact .inr (ignoresPrices_balanceReset userId).blind
    | productRestock slotId qty => exact .inr (ignoresPrices_productRestock slotId qty).blind
    | usersLookup fingerprint => exact .inr (ignoresPrices_usersLookup fingerprint).blind
  | updatePrice itemId priceGr => exact .inr (.inl (stray_productUpdatePrice itemId priceGr))
  | read op => exact .inr (.inr op.reading)

end Services

/-! ### Serial orders -/

variable {ι : Type} [DecidableEq ι]

/-- Any interleaving of the SQLite calls of all services. -/
def shared (calls : ι → ServiceCall) (db : Db) (sched : List (ι × Fault)) : Workers ι :=
  run (World.suffer Stmt.perform) (serving calls db) sched

def quietly (call : ServiceCall) : FaultyCall := (call, fun _ => false)

theorem serve_quietly (call : ServiceCall) (d : Db) :
    serve ⟨d, none⟩ (quietly call) = ⟨(call.prog.atomically Stmt.perform d).2, none⟩ := by
  obtain ⟨d', hserve, -⟩ := serve_effect d (quietly call)
  have hcommitted : (call.prog.atomically Stmt.perform d).2 = d' := by
    rw [Prog.atomically, ← Prog.run_quiet]
    exact congrArg Conn.committed hserve
  rw [hserve, hcommitted]

omit [DecidableEq ι] in
theorem serially_eq_run (calls : ι → ServiceCall) (order : List ι) (d : Db) :
    run serve ⟨d, none⟩ (order.map fun i => quietly (calls i)) =
      ⟨(serially Stmt.perform (fun i => (calls i).prog) order d).2, none⟩ := by
  induction order generalizing d with
  | nil => rfl
  | cons i order ih => rw [List.map_cons, run_cons, serve_quietly, ih, serially]

/-- Neither an operation nor a reader: a call of `product_update_price`. -/
theorem updatePrice_of_lone {call : ServiceCall} (h : Lone Stmt.perform call.prog) :
    ∃ itemId priceGr, call = .updatePrice itemId priceGr := by
  cases call with
  | txn op => exact absurd op.bracketed h.1
  | updatePrice itemId priceGr => exact ⟨itemId, priceGr, rfl⟩
  | read op => exact absurd op.reading h.2

/-- The committed database and the results are those of a serial run of the calls in `order`: the calls
that committed, in commit order, and price updates between them. -/
structure ServedInOrder (calls : ι → ServiceCall) (db : Db) (w : Workers ι) (order : List ι) : Prop where
  once : order.Nodup
  commits : w.commits.Sublist order
  single : ∀ i ∈ order, i ∈ w.commits ∨ ∃ itemId priceGr, calls i = .updatePrice itemId priceGr
  results : order.map w.prog =
    (serially Stmt.perform (fun i => (calls i).prog) order db).1.map .ret
  data : ⟨w.conn.committed, none⟩ = run serve ⟨db, none⟩ (order.map fun i => quietly (calls i))

theorem servedInOrder_shared (calls : ι → ServiceCall) (db : Db) {sched : List (ι × Fault)}
    (hsafe : Meets (World.suffer Stmt.perform) Txn.Undisturbed (serving calls db) sched) :
    ∃ order, ServedInOrder calls db (shared calls db sched) order := by
  obtain ⟨order, horder⟩ := serialOrder_run (kinds_services calls) db hsafe
  refine ⟨order, horder.once, horder.commits, fun i hi => ?_, horder.follows.results, ?_⟩
  · exact (horder.single i hi).imp_right updatePrice_of_lone
  · rw [serially_eq_run]
    exact congrArg (Conn.mk · none) horder.follows.data

/-- Whatever the threads call, at every moment of every undisturbed interleaving there is such an
order. -/
theorem shared_serially (calls : ι → ServiceCall) (db : Db) (sched : List (ι × Fault))
    (hsafe : Meets (World.suffer Stmt.perform) Txn.Undisturbed (serving calls db) sched) :
    ∃ order, ServedInOrder calls db (shared calls db sched) order :=
  servedInOrder_shared calls db hsafe

def depositAndUpdate : Bool → ServiceCall
  | false => .txn (.balanceDeposit 1 100)
  | true => .updatePrice 1 999

/-- The price is set inside the transaction of the deposit. -/
def updateInDeposit : List (Bool × Fault) :=
  (false, .quiet) :: (List.replicate 2 (true, .quiet) ++ List.replicate 5 (false, .quiet))

theorem shared_serially_updateInDeposit :
    (shared depositAndUpdate seed updateInDeposit).commits = [false] ∧
      ∃ order, ServedInOrder depositAndUpdate seed (shared depositAndUpdate seed updateInDeposit)
        order :=
  ⟨by decide, shared_serially depositAndUpdate seed updateInDeposit (by decide)⟩

/-- What every effect of a call keeps holds of every committed database. -/
theorem shared_invariant {I : Db → Prop} (h₀ : I seed)
    (hstep : ∀ d call a d', I d → True → Effect d call a d' → I d') (calls : ι → ServiceCall)
    {sched : List (ι × Fault)}
    (hsafe : Meets (World.suffer Stmt.perform) Txn.Undisturbed (serving calls seed) sched) :
    I (shared calls seed sched).conn.committed := by
  obtain ⟨order, horder⟩ := servedInOrder_shared calls seed hsafe
  have hsettled := reachable_invariant h₀ hstep (order.map fun i => quietly (calls i))
    (meets_true serve start _)
  rw [start, ← horder.data] at hsettled
  exact hsettled.2

/-- The stock agrees with its log and the removals with the purchases at every moment of every
undisturbed interleaving, price updates and failures included. -/
theorem stockLedger_shared (calls : ι → ServiceCall) (sched : List (ι × Fault))
    (hsafe : Meets (World.suffer Stmt.perform) Txn.Undisturbed (serving calls seed) sched) :
    StockLedger (shared calls seed sched).conn.committed.toTables := by
  have hseed : Catalogue seed.toTables ∧ StockLedger seed.toTables :=
    ⟨catalogue_seed, stockLedger_seed⟩
  have hstep : ∀ d call a d', (Catalogue d.toTables ∧ StockLedger d.toTables) → True →
      Effect d call a d' → Catalogue d'.toTables ∧ StockLedger d'.toTables := by
    intro d call a d' ⟨hc, hl⟩ _ he
    exact ⟨hc.effect he, hl.effect hc he⟩
  exact (shared_invariant (I := fun d => Catalogue d.toTables ∧ StockLedger d.toTables) hseed hstep
    calls hsafe).2

def restockAndUpdate : Bool → ServiceCall
  | false => .txn (.productRestock 11 5)
  | true => .updatePrice 1 999

/-- The restock loses its transaction, and the price update in it, when it commits. -/
def endedAtCommit : List (Bool × Fault) :=
  List.replicate 3 (false, .quiet) ++ List.replicate 2 (true, .quiet) ++
    List.replicate 4 (false, .quiet) ++ [(false, .ends), (false, .quiet)]

theorem stockLedger_shared_endedAtCommit :
    (shared restockAndUpdate seed endedAtCommit).commits = [] ∧
      StockLedger (shared restockAndUpdate seed endedAtCommit).conn.committed.toTables :=
  ⟨by decide, stockLedger_shared restockAndUpdate endedAtCommit (by decide)⟩

end Sshnack

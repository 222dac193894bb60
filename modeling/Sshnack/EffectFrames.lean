import Sshnack.SchemaChecks
import Sshnack.ServiceCalls

/-!
# What the effects do to the items, the stock and the users

Each effect is confined to the rows its call is about: only an update of a price touches the items,
only purchases and restocks touch the stock, and a user row is touched by the calls of that user
alone. New users come from deposits and lookups.
-/

namespace Sshnack

variable {d d' : Db} {call : ServiceCall} {a : Except Int32 Answer}

/-- The user whose balance the call may change. -/
def ServiceCall.account : ServiceCall → Option Int32
  | .txn (.ordersPurchase userId _) => some userId
  | .txn (.balanceDeposit userId _) => some userId
  | .txn (.balanceReset userId) => some userId
  | _ => none

theorem Effect.items (he : Effect d call a d') : d'.items = d.items ∨
    ∃ itemId priceGr, call = .updatePrice itemId priceGr ∧ 0 < priceGr ∧
      d'.items = (d.updatePrice itemId.toInt priceGr.toInt).items := by
  cases he with
  | failed => exact .inl rfl
  | read => exact .inl rfl
  | nothingToRefund => exact .inl rfl
  | purchased _ _ _ _ _ _ _ _ _ _ _ htables =>
    left
    rw [htables]
    rfl
  | deposited userId amountGr _ _ htables =>
    left
    obtain ⟨us, n, husers⟩ := d.upsertBalance_frame userId.toInt amountGr.toInt
    rw [htables, Tables.deposited, husers]
    rfl
  | refunded _ _ _ _ _ htables =>
    left
    rw [htables]
    rfl
  | restocked _ _ _ _ _ _ htables =>
    left
    rw [htables]
    rfl
  | repriced itemId priceGr _ hprice htables =>
    exact .inr ⟨itemId, priceGr, rfl, hprice, by rw [htables]⟩
  | lookedUp fingerprint _ htables =>
    left
    obtain ⟨us, n, husers⟩ := d.upsertFingerprint_frame fingerprint
    rw [htables, husers]

theorem Effect.stock (he : Effect d call a d') : d'.stock = d.stock ∨
    (∃ userId slotId, call = .txn (.ordersPurchase userId slotId) ∧
      d'.stock = (d.updateQuantity slotId.toInt (· - 1)).stock) ∨
    ∃ slotId qty, call = .txn (.productRestock slotId qty) ∧ 0 < qty ∧
      d'.stock = (d.updateQuantity slotId.toInt (· + qty.toInt)).stock := by
  cases he with
  | failed => exact .inl rfl
  | read => exact .inl rfl
  | nothingToRefund => exact .inl rfl
  | purchased userId slotId _ _ _ _ _ _ _ _ _ htables =>
    right
    left
    exact ⟨userId, slotId, rfl, by rw [htables]; rfl⟩
  | deposited userId amountGr _ _ htables =>
    left
    obtain ⟨us, n, husers⟩ := d.upsertBalance_frame userId.toInt amountGr.toInt
    rw [htables, Tables.deposited, husers]
    rfl
  | refunded _ _ _ _ _ htables =>
    left
    rw [htables]
    rfl
  | restocked slotId qty _ _ hqty _ htables =>
    right
    right
    exact ⟨slotId, qty, rfl, hqty, by rw [htables]; rfl⟩
  | repriced _ _ _ _ htables =>
    left
    rw [htables]
    rfl
  | lookedUp fingerprint _ htables =>
    left
    obtain ⟨us, n, husers⟩ := d.upsertFingerprint_frame fingerprint
    rw [htables, husers]

theorem Effect.users (he : Effect d call a d') : d'.users = d.users ∨
    (∃ userId f, call.account = some userId ∧
      d'.users = (d.updateBalance userId.toInt f).users) ∨
    (∃ userId amountGr, call = .txn (.balanceDeposit userId amountGr) ∧
      d'.users = d.users ++ [⟨userId.toInt, none, amountGr.toInt⟩]) ∨
    ∃ fingerprint id, call = .txn (.usersLookup fingerprint) ∧ a = .ok (.code id) ∧
      d.findFingerprint fingerprint = none ∧
      d'.users = d.users ++ [⟨d.usersSeq + 1, some fingerprint, 0⟩] := by
  cases he with
  | failed => exact .inl rfl
  | read => exact .inl rfl
  | nothingToRefund => exact .inl rfl
  | purchased userId _ _ item _ _ _ _ _ _ _ htables =>
    right
    left
    exact ⟨userId, (· - (Int32.ofInt item.price).toInt), rfl, by rw [htables]; rfl⟩
  | deposited userId amountGr _ _ htables =>
    right
    cases hfind : d.findUser userId.toInt with
    | some u =>
      left
      refine ⟨userId, (· + amountGr.toInt), rfl, ?_⟩
      rw [htables, Tables.deposited, Tables.upsertBalance, hfind]
      rfl
    | none =>
      right
      left
      refine ⟨userId, amountGr, rfl, ?_⟩
      rw [htables, Tables.deposited, Tables.upsertBalance, hfind]
      rfl
  | refunded userId _ _ _ _ htables =>
    right
    left
    exact ⟨userId, fun _ => 0, rfl, by rw [htables]; rfl⟩
  | restocked _ _ _ _ _ _ htables =>
    left
    rw [htables]
    rfl
  | repriced _ _ _ _ htables =>
    left
    rw [htables]
    rfl
  | lookedUp fingerprint _ htables =>
    cases hfind : d.findFingerprint fingerprint with
    | some u =>
      left
      rw [htables, Tables.upsertFingerprint, hfind]
    | none =>
      right
      right
      right
      exact ⟨fingerprint, _, rfl, rfl, hfind, by rw [htables, Tables.upsertFingerprint, hfind]⟩

theorem slots_updateQuantity (t : Tables) (id : Int) (f : Int → Int) :
    (t.updateQuantity id f).stock.map (fun s => (s.slotId, s.itemId)) =
      t.stock.map fun s => (s.slotId, s.itemId) :=
  Keyed.map_update fun _ => rfl

theorem Effect.itemIds (he : Effect d call a d') : d'.itemIds = d.itemIds := by
  rcases he.items with hsame | ⟨itemId, priceGr, _, _, hitems⟩
  · rw [Tables.itemIds, hsame]
    rfl
  · rw [Tables.itemIds, hitems]
    exact Tables.itemIds_updatePrice d.toTables itemId.toInt priceGr.toInt

theorem Effect.slots (he : Effect d call a d') : d'.stock.map (fun s => (s.slotId, s.itemId)) =
    d.stock.map fun s => (s.slotId, s.itemId) := by
  rcases he.stock with hsame | ⟨_, slotId, _, hstock⟩ | ⟨slotId, qty, _, _, hstock⟩
  · rw [hsame]
  · rw [hstock, slots_updateQuantity]
  · rw [hstock, slots_updateQuantity]

end Sshnack

import Sshnack.Statements

/-!
# Which writes meet the schema

From tables that meet the schema, a write is accepted or refused by the row it touches: an UPDATE by
the new value of that row, an INSERT by the row itself and the rows it refers to.
-/

namespace Sshnack

namespace Tables

variable {t : Tables} {id : Int} {f : Int → Int}

/-- Replacing the users keeps the other constraints if no user goes missing. -/
theorem Valid.withUsers (h : t.Valid) {us : List User} {n : Int}
    (hids : ∀ id ∈ t.userIds, id ∈ us.map User.userId)
    (hu : ({ t with users := us, usersSeq := n } : Tables).ValidUsers) :
    ({ t with users := us, usersSeq := n } : Tables).Valid where
  users := hu
  items := ⟨h.items.key, h.items.range⟩
  stock := ⟨h.stock.key, h.stock.check, h.stock.range, h.stock.item⟩
  transactions := ⟨h.transactions.check, h.transactions.range,
    fun x hx => hids x.userId (h.transactions.user x hx), h.transactions.item⟩
  stockLogs := ⟨h.stockLogs.check, h.stockLogs.range, h.stockLogs.item⟩

theorem valid_insertTransaction_iff {x : Transaction} :
    (t.insertTransaction x).Valid ↔ t.Valid ∧ x.Check ∧ InInt64 x.totalAmount ∧
      x.userId ∈ t.userIds ∧ ∀ i ∈ x.itemId, i ∈ t.itemIds := by
  constructor
  · rintro ⟨hu, hi, hs, ⟨hcheck, hrange, huser, hitem⟩, hl⟩
    have hx : x ∈ (t.insertTransaction x).transactions :=
      List.mem_append_right _ (List.mem_singleton.2 rfl)
    have hold : ∀ y ∈ t.transactions, y ∈ (t.insertTransaction x).transactions :=
      fun y hy => List.mem_append_left _ hy
    refine ⟨⟨?_, ?_, ?_, ?_, ?_⟩, hcheck x hx, hrange x hx, huser x hx, hitem x hx⟩
    · exact ⟨hu.key, hu.unique, hu.check, hu.range, hu.sequence⟩
    · exact ⟨hi.key, hi.range⟩
    · exact ⟨hs.key, hs.check, hs.range, hs.item⟩
    · exact ⟨fun y hy => hcheck y (hold y hy), fun y hy => hrange y (hold y hy),
        fun y hy => huser y (hold y hy), fun y hy => hitem y (hold y hy)⟩
    · exact ⟨hl.check, hl.range, hl.item⟩
  · rintro ⟨⟨hu, hi, hs, ⟨hcheck, hrange, huser, hitem⟩, hl⟩, hx⟩
    refine ⟨?_, ?_, ?_, ⟨?_, ?_, ?_, ?_⟩, ?_⟩
    · exact ⟨hu.key, hu.unique, hu.check, hu.range, hu.sequence⟩
    · exact ⟨hi.key, hi.range⟩
    · exact ⟨hs.key, hs.check, hs.range, hs.item⟩
    · exact List.forall_mem_append.2 ⟨hcheck, List.forall_mem_singleton.2 hx.1⟩
    · exact List.forall_mem_append.2 ⟨hrange, List.forall_mem_singleton.2 hx.2.1⟩
    · exact List.forall_mem_append.2 ⟨huser, List.forall_mem_singleton.2 hx.2.2.1⟩
    · exact List.forall_mem_append.2 ⟨hitem, List.forall_mem_singleton.2 hx.2.2.2⟩
    · exact ⟨hl.check, hl.range, hl.item⟩

theorem valid_insertLog_iff {l : StockLog} :
    (t.insertLog l).Valid ↔ t.Valid ∧ l.Check ∧ InInt64 l.quantityChanged ∧
      l.itemId ∈ t.itemIds := by
  constructor
  · rintro ⟨hu, hi, hs, ht, ⟨hcheck, hrange, hitem⟩⟩
    have hl : l ∈ (t.insertLog l).stockLogs := List.mem_append_right _ (List.mem_singleton.2 rfl)
    have hold : ∀ m ∈ t.stockLogs, m ∈ (t.insertLog l).stockLogs :=
      fun m hm => List.mem_append_left _ hm
    refine ⟨⟨?_, ?_, ?_, ?_, ?_⟩, hcheck l hl, hrange l hl, hitem l hl⟩
    · exact ⟨hu.key, hu.unique, hu.check, hu.range, hu.sequence⟩
    · exact ⟨hi.key, hi.range⟩
    · exact ⟨hs.key, hs.check, hs.range, hs.item⟩
    · exact ⟨ht.check, ht.range, ht.user, ht.item⟩
    · exact ⟨fun m hm => hcheck m (hold m hm), fun m hm => hrange m (hold m hm),
        fun m hm => hitem m (hold m hm)⟩
  · rintro ⟨⟨hu, hi, hs, ht, ⟨hcheck, hrange, hitem⟩⟩, hl⟩
    refine ⟨?_, ?_, ?_, ?_, ⟨?_, ?_, ?_⟩⟩
    · exact ⟨hu.key, hu.unique, hu.check, hu.range, hu.sequence⟩
    · exact ⟨hi.key, hi.range⟩
    · exact ⟨hs.key, hs.check, hs.range, hs.item⟩
    · exact ⟨ht.check, ht.range, ht.user, ht.item⟩
    · exact List.forall_mem_append.2 ⟨hcheck, List.forall_mem_singleton.2 hl.1⟩
    · exact List.forall_mem_append.2 ⟨hrange, List.forall_mem_singleton.2 hl.2.1⟩
    · exact List.forall_mem_append.2 ⟨hitem, List.forall_mem_singleton.2 hl.2.2⟩

theorem userIds_updateBalance (t : Tables) (id : Int) (f : Int → Int) :
    (t.updateBalance id f).userIds = t.userIds :=
  Keyed.map_update fun _ => rfl

theorem fingerprints_updateBalance (t : Tables) (id : Int) (f : Int → Int) :
    (t.updateBalance id f).users.filterMap User.fingerprint =
      t.users.filterMap User.fingerprint := by
  unfold updateBalance
  rw [List.filterMap_map]
  congr 1
  funext u
  simp only [Function.comp_apply]
  split_ifs <;> rfl

theorem valid_updateBalance_iff (h : t.Valid) (id : Int) (f : Int → Int) :
    (t.updateBalance id f).Valid ↔
      ∀ u, t.findUser id = some u → 0 ≤ f u.balance ∧ InInt64 (f u.balance) := by
  obtain ⟨hkey, hunique, hcheck, hrange, hseq⟩ := h.users
  have hchecked := Keyed.forall_update_iff (k := id)
    (f := fun u : User => { u with balance := f u.balance }) hkey hcheck
  have hranged := Keyed.forall_update_iff (k := id)
    (f := fun u : User => { u with balance := f u.balance }) hkey hrange
  constructor
  · intro hv u hu
    exact ⟨hchecked.1 hv.users.check u hu, (hranged.1 hv.users.range u hu).2⟩
  · intro hrow
    have hids (u : User) (hu : t.findUser id = some u) : InInt64 u.userId :=
      (hrange u (List.mem_of_find?_eq_some hu)).1
    apply h.withUsers
    · intro i hi
      rwa [← userIds_updateBalance t id f] at hi
    · refine ⟨?_, ?_, hchecked.2 fun u hu => (hrow u hu).1,
        hranged.2 fun u hu => ⟨hids u hu, (hrow u hu).2⟩, hseq.1, hseq.2.1, ?_⟩
      · rw [← userIds_updateBalance t id f] at hkey
        exact hkey
      · rw [← fingerprints_updateBalance t id f] at hunique
        exact hunique
      · exact (Keyed.forall_update_iff hkey hseq.2.2).2 fun u hu =>
          hseq.2.2 u (List.mem_of_find?_eq_some hu)

theorem valid_updateQuantity_iff (h : t.Valid) (id : Int) (f : Int → Int) :
    (t.updateQuantity id f).Valid ↔
      ∀ s, t.findSlot id = some s → 0 ≤ f s.quantity ∧ InInt64 (f s.quantity) := by
  obtain ⟨hkey, hcheck, hrange, hitem⟩ := h.stock
  have hchecked := Keyed.forall_update_iff (k := id)
    (f := fun s : Slot => { s with quantity := f s.quantity }) hkey hcheck
  have hranged := Keyed.forall_update_iff (k := id)
    (f := fun s : Slot => { s with quantity := f s.quantity }) hkey hrange
  constructor
  · intro hv s hs
    exact ⟨hchecked.1 hv.stock.check s hs, (hranged.1 hv.stock.range s hs).2⟩
  · intro hrow
    have hslot (s : Slot) (hs : t.findSlot id = some s) : InInt64 s.slotId ∧ s.itemId ∈ t.itemIds :=
      ⟨(hrange s (List.mem_of_find?_eq_some hs)).1, hitem s (List.mem_of_find?_eq_some hs)⟩
    have hkeys : (t.updateQuantity id f).slotIds = t.slotIds := Keyed.map_update fun _ => rfl
    refine ⟨?_, ?_, ⟨?_, ?_, ?_, ?_⟩, ?_, ?_⟩
    · exact ⟨h.users.key, h.users.unique, h.users.check, h.users.range, h.users.sequence⟩
    · exact ⟨h.items.key, h.items.range⟩
    · rw [hkeys]
      exact hkey
    · exact hchecked.2 fun s hs => (hrow s hs).1
    · exact hranged.2 fun s hs => ⟨(hslot s hs).1, (hrow s hs).2⟩
    · exact (Keyed.forall_update_iff hkey hitem).2 fun s hs => (hslot s hs).2
    · exact ⟨h.transactions.check, h.transactions.range, h.transactions.user, h.transactions.item⟩
    · exact ⟨h.stockLogs.check, h.stockLogs.range, h.stockLogs.item⟩

/-- An update of the stock can only be accepted after one of the users that is. -/
theorem Valid.of_updateQuantity {slotId : Int} {g : Int → Int} (h : t.Valid)
    (hv : ((t.updateBalance id f).updateQuantity slotId g).Valid) :
    (t.updateBalance id f).Valid := by
  have hu := hv.users
  refine h.withUsers ?_ ⟨hu.key, hu.unique, hu.check, hu.range, hu.sequence⟩
  intro i hi
  rwa [← userIds_updateBalance t id f] at hi

theorem itemIds_updatePrice (t : Tables) (id price : Int) :
    (t.updatePrice id price).itemIds = t.itemIds :=
  Keyed.map_update fun _ => rfl

theorem valid_updatePrice (h : t.Valid) (id : Int) {price : Int} (hprice : InInt64 price) :
    (t.updatePrice id price).Valid := by
  have hids := itemIds_updatePrice t id price
  refine ⟨?_, ⟨?_, ?_⟩, ⟨h.stock.key, h.stock.check, h.stock.range, ?_⟩,
    ⟨h.transactions.check, h.transactions.range, h.transactions.user, ?_⟩,
    ⟨h.stockLogs.check, h.stockLogs.range, ?_⟩⟩
  · exact ⟨h.users.key, h.users.unique, h.users.check, h.users.range, h.users.sequence⟩
  · rw [hids]
    exact h.items.key
  · refine (Keyed.forall_update_iff h.items.key h.items.range).2 fun i hi => ⟨?_, hprice⟩
    exact (h.items.range i (List.mem_of_find?_eq_some hi)).1
  · rw [hids]
    exact h.stock.item
  · rw [hids]
    exact h.transactions.item
  · rw [hids]
    exact h.stockLogs.item

theorem valid_insertUser (h : t.Valid) {amount : Int} (hnew : t.findUser id = none)
    (hid : InInt64 id) (hpos : 0 ≤ amount) (hamount : InInt64 amount) :
    ({ t with users := t.users ++ [⟨id, none, amount⟩], usersSeq := max t.usersSeq id } :
      Tables).Valid := by
  have hfresh : ∀ u ∈ t.users, u.userId ≠ id := by
    intro u hu
    simpa using List.find?_eq_none.1 hnew u hu
  obtain ⟨hkey, hunique, hcheck, hrange, hzero, hseq, hle⟩ := h.users
  have hmax : InInt64 (max t.usersSeq id) := by
    rcases max_choice t.usersSeq id with hm | hm <;> rw [hm] <;> assumption
  apply h.withUsers
  · intro i hi
    rw [List.map_append]
    exact List.mem_append_left _ hi
  · refine ⟨?_, ?_, ?_, ?_, hzero.trans (le_max_left _ _), hmax, ?_⟩
    · simp only [userIds, List.map_append, List.map_singleton]
      refine List.nodup_append.2 ⟨hkey, List.nodup_singleton _, ?_⟩
      intro a ha b hb
      obtain ⟨u, hu, rfl⟩ := List.mem_map.1 ha
      rw [List.mem_singleton.1 hb]
      exact hfresh u hu
    · rw [List.filterMap_append]
      simpa using hunique
    · exact List.forall_mem_append.2 ⟨hcheck, List.forall_mem_singleton.2 hpos⟩
    · exact List.forall_mem_append.2 ⟨hrange, List.forall_mem_singleton.2 ⟨hid, hamount⟩⟩
    · refine List.forall_mem_append.2 ⟨fun u hu => (hle u hu).trans (le_max_left _ _), ?_⟩
      exact List.forall_mem_singleton.2 (le_max_right _ _)

theorem valid_upsertBalance_iff (h : t.Valid) {amount : Int} (hid : InInt64 id)
    (hpos : 0 ≤ amount) (hamount : InInt64 amount) :
    (t.upsertBalance id amount).Valid ↔
      ∀ u, t.findUser id = some u → InInt64 (u.balance + amount) := by
  unfold upsertBalance
  cases hu : t.findUser id with
  | some u =>
    have hbalance : 0 ≤ u.balance + amount :=
      add_nonneg (h.users.check u (List.mem_of_find?_eq_some hu)) hpos
    refine (valid_updateBalance_iff h id (· + amount)).trans ?_
    simp [hu, hbalance]
  | none => simp [valid_insertUser h hu hid hpos hamount]

theorem mem_userIds {u : User} (h : t.findUser id = some u) : id ∈ t.userIds := by
  obtain ⟨hu, rfl⟩ := t.findUser_eq_some h
  exact List.mem_map_of_mem hu

theorem mem_userIds_upsertBalance (t : Tables) (id amount : Int) :
    id ∈ (t.upsertBalance id amount).userIds := by
  unfold upsertBalance
  cases hfind : t.findUser id with
  | some u =>
    obtain ⟨hu, hid⟩ := t.findUser_eq_some hfind
    refine List.mem_map.2 ⟨{ u with balance := u.balance + amount }, ?_, hid⟩
    exact List.mem_map.2 ⟨u, hu, by rw [if_pos hid]⟩
  | none =>
    simp only [userIds, List.map_append]
    exact List.mem_append_right _ (List.mem_singleton.2 rfl)

end Tables

end Sshnack

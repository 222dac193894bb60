import Sshnack.ClosedLoop

/-!
# Purchases at the screen

A purchase that the client lets through is one that the server makes: what the client compares is what
is stored. So it is sold at the price that is shown, and if it is not, the screen asks whether to
retry.
-/

namespace Sshnack

open Txn

variable {d : Db}

namespace Tui

variable {D : Deployment} {userId : Int32} {keypad : Keypad} {k k' : Conn Db} {p : Product}

/-- SQLite does not fail. -/
def Deployment.Quiet (D : Deployment) : Prop := ∀ call, ∀ flt ∈ D.faults call, ∀ n, flt n = false

theorem Deployment.Quiet.reads (h : D.Quiet) : D.ReadsQuietly := fun call _ flt hflt => h call flt hflt

/-- What the client checked, read on the screen before the key. -/
theorem Calling.purchase {a b : App} {slotId : Int32} (h : Calling a b (.purchase slotId)) :
    ∃ p, a.product a.selected = some p ∧ slotId = p.slotId ∧ 0 < p.stockQty ∧
      p.priceGr ≤ a.balanceGr := by
  obtain ⟨p, hp, hslot, hquantity, hprice⟩ := h.offered
  rw [App.product, h.products, h.selected] at hp
  exact ⟨p, hp, hslot, hquantity, h.balanceGr ▸ hprice⟩

end Tui
end Sshnack

import Colony.Defs.Core.Event
import Colony.Defs.Data.Framing

namespace Colony.Core

theorem digitChar_inj : ∀ a < 16, ∀ b < 16, Nat.digitChar a = Nat.digitChar b → a = b := by
  decide

@[simp] theorem length_hexDigits (count n : Nat) : (hexDigits count n).length = count := by
  simp [hexDigits]

theorem hexDigits_inj {count n m : Nat} (h : hexDigits count n = hexDigits count m) :
    n % 16 ^ count = m % 16 ^ count :=
  Data.digits_inj (by decide) digitChar_inj h

theorem EventId.toHex_inj {i j : EventId} (h : i.toHex = j.toHex) : i = j := by
  have hd : hexDigits 64 i.bits.toNat = hexDigits 64 j.bits.toNat := by
    simpa [EventId.toHex, ← String.toList_inj] using h
  have hm := hexDigits_inj hd
  rw [Nat.mod_eq_of_lt (by exact i.bits.isLt), Nat.mod_eq_of_lt (by exact j.bits.isLt)] at hm
  cases i
  cases j
  simpa [← BitVec.toNat_inj] using hm

end Colony.Core

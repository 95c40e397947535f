import Peep.Library.Bytes

/-!
# The byte order of a host

An integer lies in the memory of a host with its most significant byte first or last. The order of
the network is the first. `htonl` makes an integer of a host lie in memory in network byte order.

## Main results

* `intBytes_htonl` — what is stored after `htonl`
-/

namespace Bytes

/-- The byte order of a host. -/
inductive ByteOrder
  | big
  | little
  deriving DecidableEq

/-- The bytes of an integer in the memory of a host. -/
def intBytes : ByteOrder → UInt32 → List UInt8
  | .big, x => wordBytes x
  | .little, x => (wordBytes x).reverse

/-- `htonl`. -/
def htonl : ByteOrder → UInt32 → UInt32
  | .big, x => x
  | .little, x =>
    (word x.toUInt8 (x >>> 8).toUInt8 (x >>> 16).toUInt8 (x >>> 24).toUInt8).toUInt32

@[simp] theorem length_intBytes (order : ByteOrder) (x : UInt32) :
    (intBytes order x).length = 4 := by
  cases order <;> rfl

theorem wordBytes_word (a b c d : UInt8) : wordBytes (word a b c d).toUInt32 = [a, b, c, d] := by
  have hbyte : ∀ {u v : UInt8}, (∀ i < 8, u.toBitVec.getLsbD i = v.toBitVec.getLsbD i) → u = v :=
    fun h => UInt8.eq_of_toBitVec_eq (BitVec.eq_of_getLsbD_eq fun i hi => h i hi)
  refine congrArg₂ _ (hbyte ?_) (congrArg₂ _ (hbyte ?_) (congrArg₂ _ (hbyte ?_)
    (congrArg₂ _ (hbyte ?_) rfl)))
  all_goals
    intro i hi
    interval_cases i <;> simp [word, -UInt32.toUInt32_toUInt8]

/-- **What is stored after `htonl`** is in network byte order. -/
theorem intBytes_htonl (order : ByteOrder) (x : UInt32) :
    intBytes order (htonl order x) = wordBytes x := by
  cases order
  · rfl
  · rw [htonl, intBytes, wordBytes_word]
    rfl

end Bytes

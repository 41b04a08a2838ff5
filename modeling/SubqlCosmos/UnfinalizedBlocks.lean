import SubqlCosmos.DispatchOnce
import SubqlCosmos.FilterLaws
import SubqlCosmos.Js.JsonText

/-!
# Headers of unfinalized blocks

A block is final as soon as it is there, and no block can be asked for by its hash. The headers that the
detection of forks compares name a block by its height, written as a text
(`indexer/unfinalizedBlocks.service.ts`, `indexer/worker/worker.unfinalizedBlocks.service.ts`).
-/

namespace Js

/-! ## Integers and their texts -/

/-- The double nearest to an integer is one. -/
def nearestDouble (number : Int) : Int := (toDouble number).num

theorem nearestDouble_of_safe {number : Int} (safe : number.natAbs < 2 ^ 53) :
    nearestDouble number = number := by
  have unit : Nat.log2 number.natAbs - 52 = 0 := by
    by_cases zero : number.natAbs = 0
    · rw [zero]
      rfl
    · have small := (Nat.log2_lt zero).mpr safe
      omega
  have whole : toDouble number = (number : ℚ) := by
    simp only [toDouble, unit, pow_zero, Nat.div_one, Nat.mod_one]
    have exact : ¬(1 < 2 * 0 ∨ 2 * 0 = 1 ∧ number.natAbs % 2 = 1) := by omega
    rw [if_neg exact, Nat.mul_one, ← Int.cast_natCast, ← Int.cast_mul, Int.sign_mul_natAbs]
  rw [nearestDouble, whole, Rat.num_intCast]

/-- `number.toString()` of an integer, or of `NaN`. -/
def integerText (numbers : NumberFormat) : Option Int → String
  | none => "NaN"
  | some number =>
      String.ofList
        (if 10 ^ 21 ≤ number.natAbs then numbers.write number
        else if number < 0 then '-' :: decimal number.natAbs
        else decimal number.natAbs)

/-- A blank at the start of a numeral. -/
def IsNumeralBlank (c : Char) : Prop :=
  c.toNat ∈ [9, 10, 11, 12, 13, 32, 0xA0, 0x1680, 0x2028, 0x2029, 0x202F, 0x205F, 0x3000, 0xFEFF] ∨
    0x2000 ≤ c.toNat ∧ c.toNat ≤ 0x200A

instance : DecidablePred IsNumeralBlank := fun _ => inferInstanceAs (Decidable (_ ∨ _))

/-- The digits at the start of a text, as a number. -/
def leadingDigits (text : List Char) : Option Nat :=
  let digits := text.takeWhile Char.isDigit
  if digits = [] then none else some (Json.digitsValue digits)

/-- `parseInt(text, 10)`, where `none` is `NaN`; texts beyond the finite doubles are left out. -/
def parseInt (text : String) : Option Int :=
  match text.toList.dropWhile (fun c => IsNumeralBlank c) with
  | '-' :: rest => (leadingDigits rest).map fun number : Nat => nearestDouble (-(number : Int))
  | '+' :: rest => (leadingDigits rest).map fun number : Nat => nearestDouble (number : Int)
  | rest => (leadingDigits rest).map fun number : Nat => nearestDouble (number : Int)

theorem leadingDigits_decimal (number : Nat) : leadingDigits (decimal number) = some number := by
  have whole : (decimal number).takeWhile Char.isDigit = decimal number :=
    List.takeWhile_eq_self_iff.mpr (Json.isDigit_decimal number)
  simp only [leadingDigits, whole, if_neg (Json.decimal_ne_nil number), Json.digitsValue_decimal]

/-- A safe integer is read back from its text. -/
theorem parseInt_integerText (numbers : NumberFormat) {number : Int}
    (safe : number.natAbs < 2 ^ 53) :
    parseInt (integerText numbers (some number)) = some number := by
  have digits := leadingDigits_decimal number.natAbs
  have short : ¬10 ^ 21 ≤ number.natAbs := by omega
  rw [integerText, if_neg short, parseInt, String.toList_ofList]
  by_cases negative : number < 0
  · rw [if_pos negative, List.dropWhile_cons_of_neg (by decide)]
    have opposite : -((number.natAbs : Nat) : Int) = number := by omega
    simp only [digits]
    rw [Option.map_some, opposite, nearestDouble_of_safe safe]
  · rw [if_neg negative]
    obtain ⟨first, rest, split⟩ := List.exists_cons_of_ne_nil (Json.decimal_ne_nil number.natAbs)
    have digit : first.isDigit = true :=
      Json.isDigit_decimal number.natAbs first (by rw [split]; exact List.mem_cons_self)
    have bounds : 48 ≤ first.toNat ∧ first.toNat ≤ 57 := by
      simpa [Char.isDigit, UInt32.le_iff_toNat_le] using digit
    have solid : ¬IsNumeralBlank first := by
      rw [IsNumeralBlank]
      simp only [List.mem_cons, List.not_mem_nil, or_false]
      omega
    rw [split, List.dropWhile_cons_of_neg (by simpa using solid), ← split]
    have positive : ((number.natAbs : Nat) : Int) = number := by omega
    split
    · rename_i signed
      rw [split] at signed
      obtain ⟨rfl, -⟩ := List.cons_eq_cons.mp signed
      exact absurd bounds (by decide)
    · rename_i signed
      rw [split] at signed
      obtain ⟨rfl, -⟩ := List.cons_eq_cons.mp signed
      exact absurd bounds (by decide)
    · rw [digits, Option.map_some, positive, nearestDouble_of_safe safe]

theorem integerText_inj (numbers : NumberFormat) {first second : Int}
    (firstSafe : first.natAbs < 2 ^ 53) (secondSafe : second.natAbs < 2 ^ 53) :
    integerText numbers (some first) = integerText numbers (some second) ↔ first = second := by
  constructor
  · intro same
    have back := congrArg parseInt same
    rw [parseInt_integerText numbers firstSafe, parseInt_integerText numbers secondSafe] at back
    exact Option.some.inj back
  · rintro rfl
    rfl

end Js

namespace SubqlCosmos

open Js

namespace UnfinalizedBlocks

variable (numbers : NumberFormat)

/-! ## Headers -/

/-- `Header`. A height may be `NaN`, here `none`. -/
structure Header where
  blockHeight : Option Int
  blockHash : String
  parentHash : String
deriving DecidableEq, Repr

/-- `cosmosBlockToHeader`. -/
def cosmosBlockToHeader (blockHeight : Option Int) : Header where
  blockHeight := blockHeight
  blockHash := integerText numbers blockHeight
  parentHash := integerText numbers (blockHeight.map fun height => nearestDouble (height - 1))

/-- `blockToHeader`, which the worker does not change. -/
def blockToHeader (content : BlockContent) : Header :=
  cosmosBlockToHeader numbers (some content.block.header.height)

/-- `getHeaderForHeight`. -/
def getHeaderForHeight (height : Option Int) : Header :=
  cosmosBlockToHeader numbers height

/-- `getHeaderForHash`. -/
def getHeaderForHash (hash : String) : Header :=
  getHeaderForHeight numbers (parseInt hash)

/-- The header of the parent. -/
def parent (header : Header) : Header :=
  getHeaderForHash numbers header.parentHash

/-! ## Chains -/

theorem cosmosBlockToHeader_of_safe {height : Int} (safe : (height - 1).natAbs < 2 ^ 53) :
    cosmosBlockToHeader numbers (some height) =
      { blockHeight := some height
        blockHash := integerText numbers (some height)
        parentHash := integerText numbers (some (height - 1)) } := by
  rw [cosmosBlockToHeader, Option.map_some, nearestDouble_of_safe safe]

theorem parent_eq {height : Int} (safe : (height - 1).natAbs < 2 ^ 53) :
    parent numbers (cosmosBlockToHeader numbers (some height)) =
      cosmosBlockToHeader numbers (some (height - 1)) := by
  rw [cosmosBlockToHeader_of_safe numbers safe, parent, getHeaderForHash,
    parseInt_integerText numbers safe]
  rfl

/-- The ancestors of a block are the blocks of the heights below it. -/
theorem iterate_parent {height count : Nat} (safe : height < 2 ^ 53) (above : count ≤ height) :
    (parent numbers)^[count] (cosmosBlockToHeader numbers (some height)) =
      cosmosBlockToHeader numbers (some (height - count : Int)) := by
  induction count with
  | zero => simp
  | succ count ih =>
      have below : (height : Int) - count - 1 = height - (count + 1 : Nat) := by
        push_cast
        ring
      rw [Function.iterate_succ_apply', ih (Nat.le_of_succ_le above), parent_eq numbers (by omega),
        below]

/-- Headers tell blocks apart by their heights alone: a block is the parent of any block one higher, its
header is found again under its hash, and its ancestors are found under the hashes of their children. No
two blocks of one height are ever a fork. -/
theorem headers_tell_heights {first second : BlockContent}
    (firstSafe : first.block.header.height < 2 ^ 53)
    (secondSafe : second.block.header.height < 2 ^ 53) :
    ((blockToHeader numbers first).blockHash = (blockToHeader numbers second).parentHash ↔
        second.block.header.height = first.block.header.height + 1) ∧
      (blockToHeader numbers first = blockToHeader numbers second ↔
        first.block.header.height = second.block.header.height) ∧
      getHeaderForHash numbers (blockToHeader numbers first).blockHash =
        blockToHeader numbers first ∧
      ∀ count ≤ first.block.header.height,
        (parent numbers)^[count] (blockToHeader numbers first) =
          getHeaderForHeight numbers (some (first.block.header.height - count : Int)) := by
  refine ⟨?_, ?_, ?_, fun count above => iterate_parent numbers firstSafe above⟩
  · rw [blockToHeader, blockToHeader, cosmosBlockToHeader_of_safe numbers (by omega),
      cosmosBlockToHeader_of_safe numbers (by omega)]
    simp only
    rw [integerText_inj numbers (by omega) (by omega)]
    omega
  · constructor
    · intro same
      exact Int.ofNat_inj.mp (Option.some.inj (congrArg Header.blockHeight same))
    · intro same
      rw [blockToHeader, blockToHeader, same]
  · rw [getHeaderForHash, blockToHeader, cosmosBlockToHeader]
    simp only
    rw [parseInt_integerText numbers (by omega)]
    rfl

/-- The content of an empty block. -/
def emptyContent (height : Nat) : BlockContent where
  block := emptyBlock height 0
  transactions := []
  messages := []
  events := []
  beginBlockEvents := []
  endBlockEvents := []

/-- The first block and the one behind it. -/
theorem headers_tell_first_heights :
    (blockToHeader .integersOnly (emptyContent 1)).blockHash =
      (blockToHeader .integersOnly (emptyContent 2)).parentHash :=
  (headers_tell_heights .integersOnly (by decide) (by decide)).1.mpr rfl

end UnfinalizedBlocks
end SubqlCosmos

import SlimTemplate.Value.Order

/-!
The order in which a set lists its items. Numbers stand in a table of slots: each goes to the slot
that its residue names, or to a free one near it, and the slots are read in order. Other items are
listed as they came.
-/

namespace SlimTemplate.Value

/-- The residue of a number, whatever its kind: equal numbers have equal residues. -/
def residueModulus : Nat := Nat.pow 2 61 - 1

def infinityResidue : Nat := 314159

/-- The residue of a number as a word. The residue minus one is not used. -/
def residue? (v : Value) : Option UInt64 :=
  let signed (negative : Bool) (n : Nat) : UInt64 :=
    let n := n % residueModulus
    if negative then if n = 1 then -2 else -n.toUInt64 else n.toUInt64
  v.size?.bind fun
    | .finite units =>
        -- Units are powers of two, whose exponents count modulo 61.
        let shift := 61 - unitExponent % 61
        some (signed (units < 0) (units.natAbs % residueModulus * Nat.pow 2 shift))
    | .infinite negative => some (signed negative infinityResidue)
    | .undefined => none

/-- How many slots after its own a number may take before it is sent elsewhere. -/
def nearbySlots : Nat := 9

/-- The least table, doubled from eight slots on, that is more than twice as large as its content. -/
def tableSize (count : Nat) : Nat :=
  if 5 * count < 21 then 8
  else ((List.range (count + 1)).map fun n => 8 * Nat.pow 2 n).find? (2 * count < ·) |>.getD 8

/-- The first free slot for a number, looked for from `slot` on. -/
def freeSlot? (table : Array (Option Value)) : Nat → Nat → UInt64 → Option Nat
  | 0, _, _ => none
  | fuel + 1, slot, rest =>
      let near := if slot + nearbySlots < table.size then nearbySlots + 1 else 1
      match ((List.range near).map (slot + ·)).find? fun n => (table[n]?.getD none).isNone with
      | some n => some n
      | none =>
          let rest := rest >>> 5
          freeSlot? table fuel ((slot * 5 + 1 + rest.toNat) % table.size) rest

def fillTable (table : Array (Option Value)) : List (Value × UInt64) → Option (Array (Option Value))
  | [] => some table
  | (v, residue) :: rest => do
      let slot ← freeSlot? table (table.size + 64) (residue.toNat % table.size) residue
      fillTable (table.setIfInBounds slot (some v)) rest

/-- The items of a set in the order in which they are listed. -/
def listing (items : List Value) : List Value :=
  let placed : Option (Array (Option Value)) := do
    let numbered ← items.mapM fun v => (residue? v).map fun residue => (v, residue)
    fillTable (Array.replicate (tableSize items.length) none) numbered
  (placed.map fun table => table.toList.filterMap id).getD items

end SlimTemplate.Value

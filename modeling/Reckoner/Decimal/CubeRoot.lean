import Reckoner.Decimal.Double

/-!
# Cube roots, rounded once

The cube root of a double is computed in whole numbers to more than 64 bits and then rounded to the
nearest double. No cube root lies halfway between two doubles, so the bits that were cut off matter
only in that there are any; one further bit stands for them.
-/

namespace Reckoner

/-- The cube of a number. -/
def cube (n : Nat) : Nat := n * n * n

/-- The largest number whose cube is not above `n`, where the bits from `bits` up are those of `root`
and the others are still to be found, from the highest one down. -/
def cubeRootFrom (n : Nat) : (bits root : Nat) → Nat
  | 0, root => root
  | bits + 1, root =>
    let higher := root + Nat.pow 2 bits
    cubeRootFrom n bits (if cube higher ≤ n then higher else root)

/-- The largest number whose cube is not above `n`. -/
def floorCubeRoot (n : Nat) : Nat := cubeRootFrom n (n.log2 / 3 + 1) 0

namespace Double

/-- The double nearest to the cube root of `x`. -/
def cubeRoot (x : Float) : Float :=
  match ofFloat x with
  | .finite negative mantissa exponent =>
    if mantissa = 0 then x
    else
      -- The exponent that is left is a multiple of three.
      let shift := 192 + (exponent % 3).toNat
      let root := floorCubeRoot (mantissa * Nat.pow 2 shift)
      let magnitude := (Float.ofNat (2 * root + 1)).scaleB ((exponent - shift) / 3 - 1)
      if negative then -magnitude else magnitude
  | _ => x

end Double

theorem cubeRootFrom_cube_le {n : Nat} : ∀ {bits root : Nat}, cube root ≤ n →
    cube (cubeRootFrom n bits root) ≤ n
  | 0, _, h => h
  | bits + 1, root, h => by
    rw [cubeRootFrom]
    split
    · exact cubeRootFrom_cube_le (by assumption)
    · exact cubeRootFrom_cube_le h

/-- The cube of the root is not above the number. -/
theorem floorCubeRoot_cube_le (n : Nat) : cube (floorCubeRoot n) ≤ n :=
  cubeRootFrom_cube_le (by simp [cube])

end Reckoner

import Pointless.HashTable
import Pointless.Lib.DepthFirst

/-!
# Walking a file

`pointless_walk.c`, and the visitors of the files `pointless_walk.c` is used by.
A visitor stops a walk after it has stored an error, so `POINTLESS_WALK_STOP` is
that error.
-/

namespace Pointless

export DepthFirst (Action)

/-- The values that `pointless_walk_priv` goes on to, in its order. The items of a
vector are read one by one, as their turn comes. -/
def walkChildren (p : OpenFile) (v : Value) : Res (List (Res Value)) :=
  match v.type with
  | .vectorValue | .vectorValueHashable => do
      let nItems ← readerVectorNItems p v
      pure ((List.range nItems.toNat).map fun i => readerVectorValue p v i)
  | .setValue => pure [setHashVector p v, setKeyVector p v]
  | .mapValueValue => pure [mapHashVector p v, mapKeyVector p v, mapValueVector p v]
  | _ => pure []

/-- `pointless_walk`, for a visitor that stops at the depth `maxDepth`. -/
def walk {σ : Type} (p : OpenFile) (cb : Value → Nat → σ → Res (Action × σ)) (s : σ) : Res σ :=
  DepthFirst.walk (.fault .diverges) (walkChildren p) cb (maxDepth + 1) p.root 0 s

/-- A value that is reachable through vectors, sets and maps. -/
def Reachable (p : OpenFile) : Value → Prop :=
  Relation.ReflTransGen (DepthFirst.Child (walkChildren p)) p.root

end Pointless

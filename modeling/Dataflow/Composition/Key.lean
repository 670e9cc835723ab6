import Dataflow.Digest.Sip
import Dataflow.Store
import Dataflow.Value.Fingerprint
/-!
# Keys of compositions

A composition is reused if its key is the same: the input type, the visible variables, the board
of channels, and the content of the wire. The content follows nested wires, so that an edit of a
nested wire changes the key of every wire that uses it. A wire that is being composed cannot be
read, and then there is no key.
-/

namespace Dataflow.Store

variable {H : Host}

/-- The hashes of a stage's parameters; `nested` gives those of wires. -/
def paramHashes (nested : Id .wire → Option UInt64) (stage : Stage H) : Option (List UInt64) :=
  if stage.capabilities.parameters then
    (List.range stage.params.length).mapM fun index =>
      match stage.getParam index with
      | .wire sub => nested sub
      | value => some value.fingerprint
  else some []

/-- The hashes of a stage: its name, then its parameters. -/
def stageHashes (nested : Id .wire → Option UInt64) (stage : Stage H) : Option (List UInt64) :=
  (paramHashes nested stage).map (Sip.digest (octetsText stage.name) :: ·)

/-- The hash of a wire's content. `locked` wires are being composed, `visiting` ones are being
hashed; a nested wire that is being hashed counts by its identity alone. The first argument bounds
the depth of nesting. -/
def contentHash (s : Store H) (locked : List (Id .wire)) :
    Nat → List (Id .wire) → Wire H → Option UInt64
  | 0, _, _ => none
  | depth + 1, visiting, wire => do
    let nested (sub : Id .wire) : Option UInt64 :=
      if visiting.contains sub then some sub.row.toUInt64
      else if locked.contains sub then none
      else do
        let inner ← s.wires.get? sub
        let content ← s.contentHash locked depth (sub :: visiting) inner
        return combine Sip.digest [sub.row.toUInt64, content]
    let parts ← wire.stages.mapM fun p => stageHashes nested p.stage
    return combine Sip.digest (wire.stages.length.toUInt64 :: parts.flatten)

/-- A bound on the depth of nesting: no wire is read twice on one path. -/
def depthBound (s : Store H) : Nat := s.wires.size + 1

/-- The key of composing a wire at a site. -/
def composeKey (s : Store H) (locked : List (Id .wire)) (wire : Wire H) (site : Site) :
    Option UInt64 := do
  let content ← s.contentHash locked s.depthBound [] wire
  return combine Sip.digest
    [site.input.fingerprint, VarDecl.fingerprints site.shared, site.board.row.toUInt64, content]

end Dataflow.Store

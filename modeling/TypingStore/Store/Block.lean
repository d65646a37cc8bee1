import TypingStore.Store

/-!
# Blocks

A block is what is run on a context. It may keep a state of its own beside the store, and it ends
with an answer or a failure; whatever it did to the store before a failure stays done.

* `Block`: blocks with answers of one type.
* `Block.inChild`: a block run on a new child, which it may commit or leave behind.
-/

namespace TypingStore

/-- What is run on a context, with a state of type `σ` of its own, for an answer of type `α`. -/
abbrev Block (σ α : Type) := ContextId → σ × Store → Except Failure α × (σ × Store)

/-- Runs a block on a new child of `parent`. The child is neither committed nor dropped for the
block. -/
def Block.inChild {σ α : Type} (block : Block σ α) (parent : ContextId) (state : σ × Store) :
    Except Failure α × (σ × Store) :=
  let (child, s) := state.2.spawn parent
  block child (state.1, s)

end TypingStore

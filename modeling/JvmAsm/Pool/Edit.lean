import JvmAsm.Pool.Basic
import JvmAsm.Reply

/-! # Histories of a pool

The ways a pool can be changed, as values, so that whole histories can be
performed and spoken about: a history is a list of edits, and edits that fail
are part of it. -/

namespace JvmAsm.Pool

/-- One change of a pool. -/
inductive Edit where
  | add (constant : Constant)
  | stabilize
  | optimize
  | close
  deriving DecidableEq

namespace Edit

/-- Performs an edit. -/
def perform : Edit → Action Reply
  | add constant => do return .entry (← Pool.add constant)
  | stabilize => fun pool => .ok .done pool.stabilize
  | optimize => do Pool.optimize; return .done
  | close => do Pool.close; return .done

end Edit

/-- The pool after a history, whatever failed on the way. -/
def after (pool : Pool) (history : List Edit) : Pool :=
  history.foldl (fun pool edit => edit.perform.after pool) pool

/-- Adds constants one after the other up to the first that fails, and answers the
last entry. -/
def addAll (constants : List Constant) : Action (Option Entry) :=
  constants.foldlM (fun _ constant => some <$> add constant) none

end JvmAsm.Pool

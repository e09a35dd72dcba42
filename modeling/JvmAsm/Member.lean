import JvmAsm.Pool.Basic

/-! # Members and the pool they share

Fields and methods are edited together with the pool of their class. An attempt on
a member therefore works on the member and the pool, and keeps both when it
fails. -/

namespace JvmAsm

/-- Changes of a member and the pool of its class. -/
abbrev MemberAction (μ : Type) := Attempt Error (μ × Pool)

namespace MemberAction

variable {μ α : Type}

/-- A change of the pool alone. -/
def onPool (action : Pool.Action α) : MemberAction μ α := fun (member, pool) =>
  match action pool with
  | .ok a pool => .ok a (member, pool)
  | .error e pool => .error e (member, pool)

/-- A change of the member at an index, if there is one. -/
def onMember [Inhabited μ] (index : Nat) (action : MemberAction μ α) :
    MemberAction (Array μ) (Option α) := fun (members, pool) =>
  if h : index < members.size then
    let member := members[index]
    let members := members.set index default h
    match action (member, pool) with
    | .ok a (member, pool) => .ok (some a) (members.setIfInBounds index member, pool)
    | .error e (member, pool) => .error e (members.setIfInBounds index member, pool)
  else
    .ok none (members, pool)

/-- Finalizes members one after the other, up to the first that fails, behind those
already `done`. -/
def finalizeFrom (finalize : MemberAction μ Unit) :
    (done : Array μ) → List μ → Pool → EStateM.Result Error (Array μ × Pool) Unit
  | done, [], pool => .ok () (done, pool)
  | done, member :: members, pool =>
    match finalize (member, pool) with
    | .ok _ (member, pool) => finalizeFrom finalize (done.push member) members pool
    | .error e (member, pool) => .error e (done.push member ++ members.toArray, pool)

/-- Finalizes all members, up to the first that fails. -/
def finalizeAll (finalize : MemberAction μ Unit) : MemberAction (Array μ) Unit :=
  fun (members, pool) => finalizeFrom finalize #[] members.toList pool

end MemberAction

end JvmAsm

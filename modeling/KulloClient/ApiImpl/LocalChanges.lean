import KulloClient.ApiImpl.MergedRows

/-!
# What the user has changed

The user sets states while the syncer has loaded a message or waits for an answer.  Where neither comes in between, a
state that was set stays until the user sets it again or the server changes it; a state that was not set is sent as the
server has it; and without a copy of a message there is nothing to send.
-/

namespace KulloClient

open Relational (Table)
open Replication (Replica)
open Imperative

namespace ShadowSession

/-! ### What a step does to one state -/

/-- The user sets the state of the message. -/
def Sets (op : ShadowOp) (id : IdType) (state : MessageState) : Prop :=
  match op with
  | .setState _ state' msgId _ => msgId = id ∧ state' = state
  | _ => False

def Removes (op : ShadowOp) (id : IdType) : Prop :=
  match op with
  | .remove _ msgId => msgId = id
  | _ => False

section

variable (P : Platform) (account : MessagesSyncer.Account)

end

/-- The state is as it was synchronized. -/
def Unchanged (state : MessageState) : MessageCopy → Prop
  | .alive replica => replica.mine state = replica.base state
  | _ => True

variable {P : Platform} {account : MessagesSyncer.Account} {s s' : ShadowSession} {id : IdType} {state : MessageState}

/-- A state that the user does not set stays as it was synchronized. -/
theorem Unchanged.step (h : Shadowed s) {op : ShadowOp} (hguard : guard s op) (hstep : Step P account s op s')
    (hunchanged : Unchanged state (view s id)) (hsets : ¬ Sets op id state) : Unchanged state (view s' id) := by
  rw [(step_refines h hguard hstep).2 id]
  unfold effect
  cases op with
  | setState c state' msgId value =>
    dsimp only
    split
    · next hedited =>
      have hne : state ≠ state' := fun hsame => hsets ⟨hedited.1, hsame.symm⟩
      cases hview : view s id with
      | alive replica =>
        rw [hview] at hunchanged
        exact Replica.edit_unchanged hunchanged hne value
      | absent => trivial
      | removed base => trivial
      | buried => trivial
    · exact hunchanged
  | remove c msgId =>
    dsimp only
    split
    · cases view s id <;> trivial
    · exact hunchanged
  | process r =>
    dsimp only
    split
    · unfold MessageCopy.receive
      split
      · exact hunchanged
      · trivial
      · next lastModified theirs _ =>
        cases hview : view s id with
        | alive replica =>
          rw [hview] at hunchanged
          exact Replica.pull_unchanged hunchanged theirs
        | absent => rfl
        | removed base => trivial
        | buried => trivial
    · exact hunchanged
  | uploadModification u msgId =>
    dsimp only
    split
    · cases view s id with
      | alive replica => rfl
      | absent => trivial
      | removed base => trivial
      | buried => trivial
    · exact hunchanged
  | store dateSent draft conv msgSent delivery =>
    dsimp only
    split
    · rfl
    · exact hunchanged

end ShadowSession

namespace SyncingSession

/-! ### Runs of the user and the syncer -/

/-- The user sets the state of the message. -/
def Sets (op : SyncingOp) (id : IdType) (state : MessageState) : Prop :=
  match op with
  | .setState _ state' msgId _ => msgId = id ∧ state' = state
  | _ => False

def Removes (op : SyncingOp) (id : IdType) : Prop :=
  match op with
  | .remove _ msgId => msgId = id
  | _ => False

section

variable (P : Platform) (account : MessagesSyncer.Account)

end

/-- The user is shown the message. -/
def Listed (c : MessagesImpl) (id : IdType) : Prop :=
  id ≤ idMax ∧ ∃ dao, c.messages.find? id = some dao ∧ dao.row.deleted = false

/-- If the message is there, the state is as it was synchronized. -/
def Unedited (s : SyncingSession) (id : IdType) (state : MessageState) : Prop :=
  ∀ cur version base, currentRow s.shadow.db id = some cur → cur.deleted = false →
    s.shadow.versions id = some version → version.states = some base → cur.state state = base state

variable {P : Platform} {account : MessagesSyncer.Account} {s s' s₀ : SyncingSession} {id : IdType}
  {state : MessageState}

section

open MetaSession (sharing alice zeroIv sharingMeta letter)

/-- The message is marked as unread, which the server accepts. -/
def unread : SyncingSession := after start (.setState (.construct start.shadow.db) .read 1 false)

/-- Another device has marked it as not done, and it is removed. -/
def removed : SyncingSession := after merged (.remove (.construct merged.shadow.db) 1)

/-- The syncer comes to it once more. -/
def reloaded : SyncingSession := after removed (.load 1)

private theorem listed_construct {db : Db} (h : (currentRow db 1).map MessageRow.deleted = some false) :
    Listed (.construct db) 1 := by
  obtain ⟨row, hrow, halive⟩ := Option.map_eq_some_iff.mp h
  refine ⟨by decide, .ofRow row, ?_, halive⟩
  rw [MetaSession.find?_construct, hrow]
  rfl

/-- Caches are fresh, and the server answers about the message it was asked for. -/
def Fresh (s : SyncingSession) (op : SyncingOp) : Prop :=
  match op with
  | .setState c _ msgId _ | .remove c msgId => ShadowSession.Shows c s.shadow.db msgId
  | .answer result => ∀ asked, s.asked = some asked → ∀ idlm, result = .ok idlm → idlm.id = asked.id
  | .process _ | .load _ | .request .. | .store .. => True

/-- Another device has marked it as not done. -/
def undone : SyncingOp := .process { msg := letter 6 (sharingMeta 1 [1, 0]) }

end

end SyncingSession

end KulloClient

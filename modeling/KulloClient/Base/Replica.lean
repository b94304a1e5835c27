import KulloClient.Base.Runs
import Mathlib.Logic.Function.Basic

/-!
# Replicas of a record

A replica keeps two values of every field: the one that was synchronized last and its own.  A version of the server is
merged field by field: what was changed locally stays, everything else is taken over.  Several replicas share a server
that accepts a record only from a replica that has seen the latest version; the answer of the server can get lost.

Once nothing is edited any more, two rounds of synchronizing make all replicas equal (`settled_of_syncAll`); and a value
that one replica was given, and that no other replica has changed, is the one they all end with
(`settled_of_proposed`).
-/

namespace Replication

variable {ι κ α : Type*}

/-! ### The merge of one field -/

section merge

variable [DecidableEq α]

def merge (base mine theirs : α) : α := if mine = base then theirs else mine

@[simp] theorem merge_unchanged (base theirs : α) : merge base base theirs = theirs := if_pos rfl

theorem merge_changed {base mine : α} (h : mine ≠ base) (theirs : α) : merge base mine theirs = mine := if_neg h

/-- A version that was seen already changes nothing. -/
@[simp] theorem merge_seen (base mine : α) : merge base mine base = mine := by
  unfold merge
  split
  · next h => rw [h]
  · rfl

/-- The merged value is the old one only if nobody changed it. -/
theorem merge_eq_base_iff {base mine theirs : α} : merge base mine theirs = base ↔ mine = base ∧ theirs = base := by
  unfold merge
  split
  · next h => exact ⟨fun htheirs => ⟨h, htheirs⟩, fun hboth => hboth.2⟩
  · next h => exact ⟨fun hmine => absurd hmine h, fun hboth => absurd hboth.1 h⟩

end merge

/-! ### One replica -/

@[ext]
structure Replica (κ α : Type*) where
  /-- What was synchronized last. -/
  base : κ → α
  mine : κ → α

namespace Replica

/-- A replica of a record that was just downloaded. -/
def fresh (record : κ → α) : Replica κ α := ⟨record, record⟩

def edit [DecidableEq κ] (r : Replica κ α) (k : κ) (a : α) : Replica κ α := { r with mine := Function.update r.mine k a }

def pull [DecidableEq α] (r : Replica κ α) (theirs : κ → α) : Replica κ α where
  base := theirs
  mine k := merge (r.base k) (r.mine k) (theirs k)

/-- The server has accepted the record. -/
def push (r : Replica κ α) : Replica κ α := fresh r.mine

/-- Nothing was changed locally. -/
def Clean (r : Replica κ α) : Prop := r.mine = r.base

variable [DecidableEq α] {r : Replica κ α}

theorem pull_base (r : Replica κ α) : r.pull r.base = r := by
  ext k
  · rfl
  · exact merge_seen (r.base k) (r.mine k)

/-- A field that was not changed. -/
theorem pull_unchanged {k : κ} (h : r.mine k = r.base k) (theirs : κ → α) :
    (r.pull theirs).mine k = (r.pull theirs).base k := by
  change merge (r.base k) (r.mine k) (theirs k) = theirs k
  rw [h, merge_unchanged]

omit [DecidableEq α] in
theorem edit_unchanged [DecidableEq κ] {k k' : κ} (h : r.mine k = r.base k) (hk : k ≠ k') (a : α) :
    (r.edit k' a).mine k = (r.edit k' a).base k := by
  unfold edit
  dsimp only
  rw [Function.update_of_ne hk, h]

theorem Clean.pull (h : r.Clean) (theirs : κ → α) : (r.pull theirs).mine = theirs :=
  funext fun k => pull_unchanged (congrFun h k) theirs

end Replica

/-! ### Several replicas and their server -/

structure System (ι κ α : Type*) where
  version : Nat
  record : κ → α
  replicas : ι → Replica κ α
  /-- The version a replica has seen. -/
  seen : ι → Nat

inductive Action (ι κ α : Type*)
  | edit (i : ι) (k : κ) (a : α)
  | pull (i : ι)
  /-- The record is to get the version `v`. -/
  | push (i : ι) (v : Nat)
  /-- A push the replica gets no answer to. -/
  | lost (i : ι) (v : Nat)

namespace System

/-- No replica has seen a version there is not, and one that has seen the latest knows it. -/
structure Inv (s : System ι κ α) : Prop where
  le : ∀ i, s.seen i ≤ s.version
  base : ∀ i, s.seen i = s.version → (s.replicas i).base = s.record

/-- All replicas are synchronized. -/
def Settled (s : System ι κ α) : Prop := ∀ i, (s.replicas i).base = s.record ∧ (s.replicas i).Clean

/-- All replicas agree once they are synchronized. -/
theorem Settled.mine {s : System ι κ α} (h : s.Settled) (i : ι) : (s.replicas i).mine = s.record :=
  (h i).2.trans (h i).1

variable [DecidableEq ι] [DecidableEq κ] [DecidableEq α]

def setReplica (s : System ι κ α) (i : ι) (r : Replica κ α) : System ι κ α :=
  { s with replicas := Function.update s.replicas i r }

/-- Without the latest version a replica can push nothing. -/
def Step (s : System ι κ α) (a : Action ι κ α) (s' : System ι κ α) : Prop :=
  match a with
  | .edit i k a => s' = s.setReplica i ((s.replicas i).edit k a)
  | .pull i =>
    s' = { s.setReplica i ((s.replicas i).pull s.record) with seen := Function.update s.seen i s.version }
  | .push i v =>
    s.version < v ∧ s.seen i = s.version ∧
      s' = { s.setReplica i (s.replicas i).push with
        version := v
        record := (s.replicas i).mine
        seen := Function.update s.seen i v }
  | .lost i v =>
    s.version < v ∧ s.seen i = s.version ∧ s' = { s with version := v, record := (s.replicas i).mine }

variable {s s' : System ι κ α}

omit [DecidableEq κ] [DecidableEq α] in
@[simp] theorem setReplica_self (s : System ι κ α) (i : ι) (r : Replica κ α) : (s.setReplica i r).replicas i = r := by
  unfold setReplica
  exact Function.update_self i r s.replicas

omit [DecidableEq κ] [DecidableEq α] in
theorem setReplica_other (s : System ι κ α) {i j : ι} (h : j ≠ i) (r : Replica κ α) :
    (s.setReplica i r).replicas j = s.replicas j := by
  unfold setReplica
  exact Function.update_of_ne h r s.replicas

/-! #### What a step keeps -/

theorem Inv.step (h : s.Inv) {a : Action ι κ α} (hstep : Step s a s') : s'.Inv := by
  cases a with
  | edit i k a =>
    cases hstep
    refine ⟨h.le, ?_⟩
    intro j hj
    by_cases hji : j = i
    · subst hji
      rw [setReplica_self]
      exact h.base j hj
    · rw [setReplica_other s hji]
      exact h.base j hj
  | pull i =>
    cases hstep
    refine ⟨?_, ?_⟩
    · intro j
      by_cases hji : j = i
      · subst hji
        exact Nat.le_of_eq (Function.update_self j s.version s.seen)
      · exact Nat.le_trans (Nat.le_of_eq (Function.update_of_ne hji s.version s.seen)) (h.le j)
    · intro j hj
      by_cases hji : j = i
      · subst hji
        dsimp only
        rw [setReplica_self]
        rfl
      · dsimp only at hj ⊢
        rw [Function.update_of_ne hji] at hj
        rw [setReplica_other s hji]
        exact h.base j hj
  | push i v =>
    obtain ⟨hlt, -, rfl⟩ := hstep
    refine ⟨?_, ?_⟩
    · intro j
      by_cases hji : j = i
      · subst hji
        exact Nat.le_of_eq (Function.update_self j v s.seen)
      · exact Nat.le_trans (Nat.le_of_eq (Function.update_of_ne hji v s.seen)) (Nat.le_trans (h.le j) (Nat.le_of_lt hlt))
    · intro j hj
      by_cases hji : j = i
      · subst hji
        dsimp only
        rw [setReplica_self]
        rfl
      · -- the others have not seen the new version
        dsimp only at hj
        rw [Function.update_of_ne hji] at hj
        have hle := h.le j
        omega
  | lost i v =>
    obtain ⟨hlt, -, rfl⟩ := hstep
    refine ⟨fun j => Nat.le_trans (h.le j) (Nat.le_of_lt hlt), ?_⟩
    intro j hj
    have hle := h.le j
    dsimp only at hj
    omega

theorem Inv.reaches {ok : System ι κ α → Action ι κ α → Prop} (h : s.Inv) (hreach : Transition.Reaches Step ok s s') :
    s'.Inv :=
  Transition.Reaches.keeps (fun _ _ _ hinv _ hstep => hinv.step hstep) hreach h

/-! #### A value that stays -/

/-- The server has the value `a` of a field, and no replica has changed it. -/
structure Holds (s : System ι κ α) (k : κ) (a : α) : Prop where
  record : s.record k = a
  replicas : ∀ i, (s.replicas i).mine k = (s.replicas i).base k

/-- The replica `i` has changed a field to `a`, and no other replica has changed it. -/
structure Pending (s : System ι κ α) (i : ι) (k : κ) (a : α) : Prop where
  mine : (s.replicas i).mine k = a
  base : (s.replicas i).base k ≠ a
  others : ∀ j, j ≠ i → (s.replicas j).mine k = (s.replicas j).base k

/-- A value on its way from the replica `i` to the others. -/
def Proposed (s : System ι κ α) (i : ι) (k : κ) (a : α) : Prop := s.Pending i k a ∨ s.Holds k a

theorem Holds.step {k : κ} {a : α} (h : s.Holds k a) (hinv : s.Inv) {act : Action ι κ α} (hstep : Step s act s')
    (hact : ∀ i b, act ≠ .edit i k b) : s'.Holds k a := by
  cases act with
  | edit i k' b =>
    cases hstep
    have hk : k ≠ k' := by
      rintro rfl
      exact hact i b rfl
    refine ⟨h.record, ?_⟩
    intro j
    by_cases hji : j = i
    · subst hji
      rw [setReplica_self]
      exact Replica.edit_unchanged (h.replicas j) hk b
    · rw [setReplica_other s hji]
      exact h.replicas j
  | pull i =>
    cases hstep
    refine ⟨h.record, ?_⟩
    intro j
    dsimp only
    by_cases hji : j = i
    · subst hji
      rw [setReplica_self]
      exact Replica.pull_unchanged (h.replicas j) s.record
    · rw [setReplica_other s hji]
      exact h.replicas j
  | push i v =>
    obtain ⟨-, hseen, rfl⟩ := hstep
    refine ⟨?_, ?_⟩
    · -- the replica that is accepted has the field from the server
      dsimp only
      rw [h.replicas i, hinv.base i hseen, h.record]
    · intro j
      dsimp only
      by_cases hji : j = i
      · subst hji
        rw [setReplica_self]
        rfl
      · rw [setReplica_other s hji]
        exact h.replicas j
  | lost i v =>
    obtain ⟨-, hseen, rfl⟩ := hstep
    refine ⟨?_, h.replicas⟩
    dsimp only
    rw [h.replicas i, hinv.base i hseen, h.record]

/-- The value stays with its replica until the server has it and the replica knows. -/
theorem Pending.step {i : ι} {k : κ} {a : α} (h : s.Pending i k a) {act : Action ι κ α} (hstep : Step s act s')
    (hact : ∀ j b, act ≠ .edit j k b) : s'.Proposed i k a := by
  cases act with
  | edit j k' b =>
    cases hstep
    have hk : k ≠ k' := by
      rintro rfl
      exact hact j b rfl
    refine .inl ⟨?_, ?_, ?_⟩
    · by_cases hij : i = j
      · subst hij
        rw [setReplica_self]
        exact (Function.update_of_ne hk b _).trans h.mine
      · rw [setReplica_other s hij]
        exact h.mine
    · by_cases hij : i = j
      · subst hij
        rw [setReplica_self]
        exact h.base
      · rw [setReplica_other s hij]
        exact h.base
    · intro j' hj'
      by_cases hjj : j' = j
      · subst hjj
        rw [setReplica_self]
        exact Replica.edit_unchanged (h.others j' hj') hk b
      · rw [setReplica_other s hjj]
        exact h.others j' hj'
  | pull j =>
    cases hstep
    -- a replica other than `i` has no change of its own
    have hothers : ∀ j', j' ≠ i → ((s.setReplica j ((s.replicas j).pull s.record)).replicas j').mine k =
        ((s.setReplica j ((s.replicas j).pull s.record)).replicas j').base k := by
      intro j' hj'
      by_cases hjj : j' = j
      · subst hjj
        rw [setReplica_self]
        exact Replica.pull_unchanged (h.others j' hj') s.record
      · rw [setReplica_other s hjj]
        exact h.others j' hj'
    by_cases hij : i = j
    · subst hij
      have hmine : ((s.replicas i).pull s.record).mine k = a := by
        change Replication.merge ((s.replicas i).base k) ((s.replicas i).mine k) (s.record k) = a
        rw [h.mine, merge_changed (Ne.symm h.base)]
      by_cases hrecord : s.record k = a
      · -- the answer to the push was lost, but the server has the value
        refine .inr ⟨hrecord, ?_⟩
        intro j'
        by_cases hj' : j' = i
        · subst hj'
          dsimp only
          rw [setReplica_self, hmine]
          exact hrecord.symm
        · exact hothers j' hj'
      · refine .inl ⟨?_, ?_, hothers⟩
        · dsimp only
          rw [setReplica_self, hmine]
        · dsimp only
          rw [setReplica_self]
          exact hrecord
    · refine .inl ⟨?_, ?_, hothers⟩
      · dsimp only
        rw [setReplica_other s hij]
        exact h.mine
      · dsimp only
        rw [setReplica_other s hij]
        exact h.base
  | push j v =>
    obtain ⟨-, -, rfl⟩ := hstep
    have hothers : ∀ j', j' ≠ i → ((s.setReplica j (s.replicas j).push).replicas j').mine k =
        ((s.setReplica j (s.replicas j).push).replicas j').base k := by
      intro j' hj'
      by_cases hjj : j' = j
      · subst hjj
        rw [setReplica_self]
        rfl
      · rw [setReplica_other s hjj]
        exact h.others j' hj'
    by_cases hij : i = j
    · subst hij
      refine .inr ⟨h.mine, ?_⟩
      intro j'
      by_cases hj' : j' = i
      · subst hj'
        dsimp only
        rw [setReplica_self]
        rfl
      · exact hothers j' hj'
    · refine .inl ⟨?_, ?_, hothers⟩
      · dsimp only
        rw [setReplica_other s hij]
        exact h.mine
      · dsimp only
        rw [setReplica_other s hij]
        exact h.base
  | lost j v =>
    obtain ⟨-, -, rfl⟩ := hstep
    exact .inl ⟨h.mine, h.base, h.others⟩

theorem Proposed.reaches {i : ι} {k : κ} {a : α} (h : s.Proposed i k a) (hinv : s.Inv)
    (hreach : Transition.Reaches Step (fun _ act => ∀ j b, act ≠ .edit j k b) s s') : s'.Proposed i k a := by
  refine (Transition.Reaches.keeps (I := fun s => s.Proposed i k a ∧ s.Inv) ?_ hreach ⟨h, hinv⟩).1
  rintro t act t' ⟨hpending | hholds, hinv⟩ hact hstep
  · exact ⟨hpending.step hstep hact, hinv.step hstep⟩
  · exact ⟨.inr (hholds.step hinv hstep hact), hinv.step hstep⟩

omit [DecidableEq ι] [DecidableEq κ] [DecidableEq α] in
/-- Once all replicas are synchronized they have the value. -/
theorem settled_of_proposed {i : ι} {k : κ} {a : α} (h : s.Proposed i k a) (hsettled : s.Settled) (j : ι) :
    (s.replicas j).mine k = a := by
  rw [hsettled.mine j]
  rcases h with hpending | hholds
  · rw [← hsettled.mine i]
    exact hpending.mine
  · exact hholds.record

/-! #### Rounds of synchronizing -/

/-- A replica downloads the record, and uploads its own if there is something to upload. -/
def Sync (i : ι) (s s' : System ι κ α) : Prop :=
  ∃ s₁, Step s (.pull i) s₁ ∧ ((∃ v, Step s₁ (.push i v) s') ∨ (s₁.replicas i).Clean ∧ s' = s₁)

/-- The replicas synchronize one after the other. -/
def SyncAll : List ι → System ι κ α → System ι κ α → Prop
  | [], s, s' => s' = s
  | i :: is, s, s' => ∃ s₁, Sync i s s₁ ∧ SyncAll is s₁ s'

/-- A replica that has synchronized agrees with the server, and the other replicas are as they were. -/
theorem Sync.settles {i : ι} (h : Sync i s s') :
    (s'.replicas i).base = s'.record ∧ (s'.replicas i).Clean ∧ ∀ j, j ≠ i → s'.replicas j = s.replicas j := by
  obtain ⟨s₁, rfl, ⟨v, -, -, rfl⟩ | ⟨hclean, rfl⟩⟩ := h
  · dsimp only
    rw [setReplica_self]
    refine ⟨rfl, rfl, ?_⟩
    intro j hj
    rw [setReplica_other _ hj]
    exact setReplica_other s hj _
  · refine ⟨?_, hclean, fun j hj => setReplica_other s hj _⟩
    dsimp only
    rw [setReplica_self]
    rfl

/-- A replica without changes brings the server nothing new. -/
theorem Sync.record_of_clean {i : ι} (h : Sync i s s') (hclean : (s.replicas i).Clean) : s'.record = s.record := by
  obtain ⟨s₁, rfl, ⟨v, -, -, rfl⟩ | ⟨-, rfl⟩⟩ := h
  · dsimp only
    rw [setReplica_self]
    exact hclean.pull s.record
  · rfl

/-- After a round all replicas that took part have nothing to upload. -/
theorem SyncAll.clean {is : List ι} (h : SyncAll is s s') :
    ∀ i, i ∈ is ∨ (s.replicas i).Clean → (s'.replicas i).Clean := by
  induction is generalizing s with
  | nil =>
    cases h
    intro i hi
    exact hi.resolve_left List.not_mem_nil
  | cons j is ih =>
    obtain ⟨s₁, hsync, hrest⟩ := h
    obtain ⟨-, hclean, hothers⟩ := hsync.settles
    intro i hi
    apply ih hrest i
    by_cases hij : i = j
    · subst hij
      exact .inr hclean
    · rw [hothers i hij]
      exact hi.imp_left fun hmem => (List.mem_cons.mp hmem).resolve_left hij

/-- In a round of replicas without changes the server keeps its record, and those that take part get it. -/
theorem SyncAll.settles {is : List ι} (h : SyncAll is s s') (hclean : ∀ i, (s.replicas i).Clean) :
    s'.record = s.record ∧
      ∀ i, i ∈ is ∨ (s.replicas i).base = s.record → (s'.replicas i).base = s'.record := by
  induction is generalizing s with
  | nil =>
    cases h
    exact ⟨rfl, fun i hi => hi.resolve_left List.not_mem_nil⟩
  | cons j is ih =>
    obtain ⟨s₁, hsync, hrest⟩ := h
    obtain ⟨hbase, hclean', hothers⟩ := hsync.settles
    have hrecord := hsync.record_of_clean (hclean j)
    have hclean₁ : ∀ i, (s₁.replicas i).Clean := by
      intro i
      by_cases hij : i = j
      · subst hij
        exact hclean'
      · rw [hothers i hij]
        exact hclean i
    obtain ⟨hrecord', hrest'⟩ := ih hrest hclean₁
    refine ⟨hrecord'.trans hrecord, ?_⟩
    intro i hi
    apply hrest' i
    by_cases hij : i = j
    · subst hij
      exact .inr hbase
    · refine hi.imp (fun hmem => (List.mem_cons.mp hmem).resolve_left hij) ?_
      intro hi
      rw [hothers i hij, hrecord, hi]

/-- Two rounds in which every replica takes part synchronize all of them. -/
theorem settled_of_syncAll {is js : List ι} {s₁ s₂ : System ι κ α} (h₁ : SyncAll is s s₁) (h₂ : SyncAll js s₁ s₂)
    (his : ∀ i, i ∈ is) (hjs : ∀ i, i ∈ js) : s₂.Settled := by
  have hclean : ∀ i, (s₁.replicas i).Clean := fun i => h₁.clean i (.inl (his i))
  obtain ⟨-, hsettles⟩ := h₂.settles hclean
  exact fun i => ⟨hsettles i (.inl (hjs i)), h₂.clean i (.inl (hjs i))⟩

/-- A round is a run without edits. -/
theorem SyncAll.reaches {is : List ι} {ok : System ι κ α → Action ι κ α → Prop}
    (hok : ∀ s i v, ok s (.pull i) ∧ ok s (.push i v)) (h : SyncAll is s s') : Transition.Reaches Step ok s s' := by
  induction is generalizing s with
  | nil =>
    cases h
    exact .refl
  | cons i is ih =>
    obtain ⟨s₁, ⟨s₂, hpull, hpush⟩, hrest⟩ := h
    have hpulled : Transition.Reaches Step ok s s₂ := .snoc .refl (hok s i 0).1 hpull
    rcases hpush with ⟨v, hpush⟩ | ⟨-, rfl⟩
    · exact (hpulled.snoc (hok s₂ i v).2 hpush).trans (ih hrest)
    · exact hpulled.trans (ih hrest)

end System

end Replication

import KulloClient.ApiImpl.Events
import KulloClient.Dao.Conversation
import Mathlib.Data.List.Destutter

/-!
# ConversationsImpl

The conversations as the main thread has cached them: the daos by id, and the ids by the participants.  `add` inserts
a conversation into the database at once and into the cache only when its event is delivered.
-/

namespace KulloClient

open Relational (Table)

structure ConversationsImpl where
  participantsToConversationId : Table (Prod.fst : String × IdType → String) := ∅
  conversations : Table ConversationDao.id := ∅
  deriving DecidableEq

namespace ConversationsImpl

/-- What the constructor does with a conversation of the database. -/
def emplace (c : ConversationsImpl) (dao : ConversationDao) : ConversationsImpl where
  participantsToConversationId := c.participantsToConversationId.insertOrReplace (dao.participants, dao.id)
  conversations := c.conversations.insertOrIgnore dao

/-- The constructor. -/
def construct (db : Db) : ConversationsImpl := (ConversationDao.all db).foldl emplace {}

/-- `participantsToString`, of the elements of a set in any order. -/
def participantsToString (participants : List KulloAddress) : String :=
  let partVec := (participants.map KulloAddress.toString).insertionSort (fun a b => decide (a ≤ b))
  String.intercalate "," (partVec.destutter (· ≠ ·))

/-- The private `get`; −1 is `none`. -/
def lookup (c : ConversationsImpl) (participants : String) : Option IdType :=
  (c.participantsToConversationId.find? participants).map Prod.snd

def get (c : ConversationsImpl) (participants : List KulloAddress) : Except Exn (Option IdType) := do
  kulloAssert (!participants.isEmpty) "participants.size()"
  .ok (c.lookup (participantsToString participants))

/-- `add`: the id, the database and the events it announces. -/
def add (c : ConversationsImpl) (db : Db) (currentUserAddress : KulloAddress) (participants : List KulloAddress) :
    Except Exn (IdType × Db × List Event) := do
  kulloAssert (!participants.isEmpty) "participants.size()"
  kulloAssert (participants.all (fun participant => participant ≠ currentUserAddress))
    "participant != currentUserAddress"
  match c.lookup (participantsToString participants) with
  | some convId => .ok (convId, db, [])
  | none => do
    let (_, dao, db) ← ConversationDao.save { participants := participantsToString participants } db
    .ok (dao.id, db, [.conversationAdded dao.id])

/-- `triggerRemoval`: the events it announces. -/
def triggerRemoval (c : ConversationsImpl) (convId : IdType) : Except Exn (List Event) := do
  assertId convId "convId"
  match c.conversations.find? convId with
  | some _ => .ok [.conversationWillBeRemoved convId]
  | none => .ok []

/-! ### The handlers -/

def conversationAdded (c : ConversationsImpl) (db : Db) (convId : IdType) :
    Except Exn (List ApiEvent × ConversationsImpl) := do
  assertId convId "convId"
  match ConversationDao.load db convId with
  | none => .error (.databaseIntegrityError "ConversationsImpl::conversationAdded")
  | some dao =>
    .ok ([{ event := .conversationAdded, conversationId := convId }],
      { participantsToConversationId := c.participantsToConversationId.insertOrReplace (dao.participants, convId)
        conversations := c.conversations.insertOrIgnore dao })

/-- Only `conversations_` gets a conversation that is not cached. -/
def conversationModified (c : ConversationsImpl) (db : Db) (convId : IdType) :
    Except Exn (List ApiEvent × ConversationsImpl) := do
  assertId convId "convId"
  match ConversationDao.load db convId with
  | none => .error (.databaseIntegrityError "ConversationsImpl::conversationModified")
  | some dao =>
    .ok ([{ event := .conversationChanged, conversationId := convId }],
      { c with conversations := c.conversations.insertOrReplace dao })

def conversationWillBeRemoved (c : ConversationsImpl) (db : Db) (convId : IdType) :
    Except Exn (List ApiEvent × ConversationsImpl × Db) :=
  match c.conversations.find? convId with
  | none => .ok ([], c, db)
  | some dao => do
    kulloAssert (c.lookup dao.participants).isSome "countErased > 0"
    .ok ([{ event := .conversationRemoved, conversationId := convId }],
      { participantsToConversationId :=
          c.participantsToConversationId.deleteWhere (fun entry => entry.1 == dao.participants)
        conversations := c.conversations.deleteWhere (fun dao => dao.id == convId) },
      dao.deletePermanently db)

/-- The event a handler is called for; events for the other listeners change nothing here. -/
def notify (c : ConversationsImpl) (db : Db) : Event → Except Exn (List ApiEvent × ConversationsImpl × Db)
  | .conversationAdded convId => (c.conversationAdded db convId).map fun r => (r.1, r.2, db)
  | .conversationModified convId => (c.conversationModified db convId).map fun r => (r.1, r.2, db)
  | .conversationWillBeRemoved convId => c.conversationWillBeRemoved db convId
  | _ => .ok ([], c, db)

/-! ### The text of a set of participants -/

private theorem mem_destutter' {l : List String} {a b : String} :
    b ∈ l.destutter' (· ≠ ·) a ↔ b = a ∨ b ∈ l := by
  induction l generalizing a with
  | nil => simp
  | cons c l ih =>
    rw [List.destutter'_cons]
    split
    · rw [List.mem_cons, ih, List.mem_cons]
    · next h =>
      have hca : a = c := by simpa using h
      rw [ih, List.mem_cons, hca]
      tauto

private theorem mem_destutter {l : List String} {a : String} : a ∈ l.destutter (· ≠ ·) ↔ a ∈ l := by
  cases l with
  | nil => simp
  | cons b l => rw [List.destutter_cons', mem_destutter', List.mem_cons]

private theorem isChain_lt {l : List String} (hle : l.IsChain (· ≤ ·)) (hne : l.IsChain (· ≠ ·)) :
    l.IsChain (· < ·) := by
  induction l with
  | nil => exact .nil
  | cons a l ih =>
    cases l with
    | nil => exact .singleton a
    | cons b l =>
      rw [List.isChain_cons_cons] at hle hne ⊢
      exact ⟨String.not_le.mp (fun hba => hne.1 (String.le_antisymm hle.1 hba)), ih hle.2 hne.2⟩

private theorem sorted_destutter {l : List String} (h : l.Pairwise (· ≤ ·)) :
    (l.destutter (· ≠ ·)).Pairwise (· < ·) := by
  have hle : (l.destutter (· ≠ ·)).Pairwise (· ≤ ·) := h.sublist (List.destutter_sublist _ l)
  exact (isChain_lt hle.isChain (List.isChain_destutter (· ≠ ·) l)).pairwise

/-- The text depends on the set only, not on the order or the number of the addresses. -/
theorem participantsToString_congr {participants participants' : List KulloAddress}
    (h : ∀ a, a ∈ participants ↔ a ∈ participants') :
    participantsToString participants = participantsToString participants' := by
  have hsorted : ∀ ps : List KulloAddress,
      (((ps.map KulloAddress.toString).insertionSort (fun a b => decide (a ≤ b))).destutter (· ≠ ·)).Pairwise
        (· < ·) := by
    intro ps
    apply sorted_destutter
    simpa using List.pairwise_insertionSort (fun a b : String => decide (a ≤ b)) (ps.map KulloAddress.toString)
  unfold participantsToString
  dsimp only
  congr 1
  apply List.Pairwise.eq_of_mem_iff (hsorted participants) (hsorted participants')
  intro a
  simp only [mem_destutter, List.mem_insertionSort, List.mem_map, h]

theorem participantsToString_ne_empty {participants : List KulloAddress} (h : participants ≠ []) :
    participantsToString participants ≠ "" := by
  unfold participantsToString
  dsimp only
  generalize hl : ((participants.map KulloAddress.toString).insertionSort (fun a b => decide (a ≤ b))).destutter
    (· ≠ ·) = names
  have hname : ∀ name ∈ names, name ≠ "" := by
    intro name hmem
    rw [← hl, mem_destutter, List.mem_insertionSort, List.mem_map] at hmem
    obtain ⟨a, _, rfl⟩ := hmem
    exact a.toString_ne_empty
  have hne : names ≠ [] := by
    intro hnil
    rw [hnil, List.destutter_eq_nil, ← List.length_eq_zero_iff, List.length_insertionSort, List.length_map,
      List.length_eq_zero_iff] at hl
    exact h hl
  cases names with
  | nil => exact absurd rfl hne
  | cons name names =>
    have hname := hname name List.mem_cons_self
    cases names with
    | nil => rwa [String.intercalate_singleton]
    | cons name' names =>
      rw [String.intercalate_cons_cons]
      simp

/-! ### What `add` does -/

/-- `add` fails an assertion, finds the conversation in the cache, or inserts it. -/
theorem add_cases (c : ConversationsImpl) (db : Db) (currentUserAddress : KulloAddress)
    (participants : List KulloAddress) :
    ((participants ≠ [] → currentUserAddress ∈ participants) ∧
      ∃ expression, c.add db currentUserAddress participants = .error (.assertionFailed expression)) ∨
    (∃ convId, c.lookup (participantsToString participants) = some convId ∧
      c.add db currentUserAddress participants = .ok (convId, db, [])) ∨
    (participants ≠ [] ∧ c.lookup (participantsToString participants) = none ∧
      c.add db currentUserAddress participants =
        (ConversationDao.save { participants := participantsToString participants } db).map
          fun r => (r.2.1.id, r.2.2, [.conversationAdded r.2.1.id])) := by
  by_cases hempty : participants = []
  · subst hempty
    exact .inl ⟨fun h => absurd rfl h, _, rfl⟩
  · have hne : (!participants.isEmpty) = true := by simpa using hempty
    by_cases hself : currentUserAddress ∈ participants
    · have hall : participants.all (fun participant => participant ≠ currentUserAddress) = false := by
        rw [List.all_eq_false]
        exact ⟨currentUserAddress, hself, by simp⟩
      refine .inl ⟨fun _ => hself, "participant != currentUserAddress", ?_⟩
      unfold add
      rw [hne, hall]
      rfl
    · have hall : participants.all (fun participant => participant ≠ currentUserAddress) = true := by
        rw [List.all_eq_true]
        intro a ha
        have : a ≠ currentUserAddress := by
          rintro rfl
          exact hself ha
        simpa using this
      unfold add
      rw [hne, hall]
      cases hlookup : c.lookup (participantsToString participants) with
      | some convId => exact .inr (.inl ⟨convId, rfl, rfl⟩)
      | none =>
        refine .inr (.inr ⟨hempty, rfl, ?_⟩)
        cases ConversationDao.save { participants := participantsToString participants } db <;> rfl

/-! ### What the handlers do -/

theorem conversationAdded_eq {c : ConversationsImpl} {db : Db} {convId : IdType} {dao : ConversationDao}
    (hrange : convId ≤ idMax) (hload : ConversationDao.load db convId = some dao) :
    c.conversationAdded db convId =
      .ok ([{ event := .conversationAdded, conversationId := convId }], c.emplace dao) := by
  obtain ⟨r, -, rfl, rfl⟩ := ConversationDao.load_eq_some.mp hload
  unfold conversationAdded
  simp only [assertId_of_le hrange, Imperative.ok_bind, hload]
  rfl

theorem conversationModified_eq_ok {c c' : ConversationsImpl} {db : Db} {convId : IdType} {apiEvents : List ApiEvent}
    (h : c.conversationModified db convId = .ok (apiEvents, c')) :
    apiEvents = [{ event := .conversationChanged, conversationId := convId }] ∧
      ∃ dao, ConversationDao.load db convId = some dao ∧
        c' = { c with conversations := c.conversations.insertOrReplace dao } := by
  obtain ⟨_, -, h⟩ := Imperative.bind_eq_ok.mp h
  cases hload : ConversationDao.load db convId with
  | none =>
    rw [hload] at h
    cases h
  | some dao =>
    rw [hload] at h
    cases h
    exact ⟨rfl, dao, rfl, rfl⟩

/-- The assertion about the participants is not among its own. -/
theorem conversationModified_raises (c : ConversationsImpl) (db : Db) (convId : IdType) :
    Imperative.RaisesOnly (· ≠ .assertionFailed "countErased > 0") (c.conversationModified db convId) := by
  unfold conversationModified
  refine Imperative.raisesOnly_bind ((assertId_raises convId "convId").mono ?_) ?_
  · rintro _ rfl
    decide
  · intro _ _
    split
    · rw [Imperative.raisesOnly_error]
      decide
    · exact Imperative.raisesOnly_ok _

theorem triggerRemoval_eq_ok {c : ConversationsImpl} {convId : IdType} {events : List Event}
    (h : c.triggerRemoval convId = .ok events) : events = [] ∨ events = [.conversationWillBeRemoved convId] := by
  obtain ⟨_, -, h⟩ := Imperative.bind_eq_ok.mp h
  split at h
  · cases h
    exact .inr rfl
  · cases h
    exact .inl rfl

theorem conversationWillBeRemoved_of_none {c : ConversationsImpl} {db : Db} {convId : IdType}
    (h : c.conversations.find? convId = none) : c.conversationWillBeRemoved db convId = .ok ([], c, db) := by
  unfold conversationWillBeRemoved
  rw [h]

/-! ### The two maps -/

/-- Each map of the cache is the inverse of the other. -/
def MutuallyInverse (c : ConversationsImpl) : Prop :=
  ∀ participants convId, c.lookup participants = some convId ↔
    (c.conversations.find? convId).map ConversationDao.participants = some participants

variable {c : ConversationsImpl} {dao : ConversationDao}

private theorem lookup_emplace (c : ConversationsImpl) (dao : ConversationDao) (participants : String) :
    (c.emplace dao).lookup participants =
      if dao.participants = participants then some dao.id else c.lookup participants := by
  unfold lookup emplace
  rw [Table.find?_insertOrReplace]
  split <;> rfl

theorem find?_emplace (hfree : c.conversations.find? dao.id = none) (convId : IdType) :
    (c.emplace dao).conversations.find? convId =
      if dao.id = convId then some dao else c.conversations.find? convId := by
  unfold emplace
  rw [Table.find?_insertOrIgnore]
  split
  · next h => rw [← h, hfree, Option.getD_none]
  · rfl

theorem MutuallyInverse.emplace (h : c.MutuallyInverse) (hfree : c.conversations.find? dao.id = none)
    (hunknown : c.lookup dao.participants = none) : (c.emplace dao).MutuallyInverse := by
  intro participants convId
  rw [lookup_emplace, find?_emplace hfree]
  by_cases hp : dao.participants = participants
  · by_cases hid : dao.id = convId
    · simp [hp, hid]
    · rw [if_pos hp, if_neg hid, ← h, ← hp, hunknown]
      simp [hid]
  · by_cases hid : dao.id = convId
    · rw [if_neg hp, if_pos hid, h, ← hid, hfree]
      simp [hp]
    · rw [if_neg hp, if_neg hid]
      exact h participants convId

private theorem foldl_emplace {daos : List ConversationDao} (h : c.MutuallyInverse)
    (hne : daos.Pairwise (fun d d' => d.id ≠ d'.id ∧ d.participants ≠ d'.participants))
    (hfree : ∀ d ∈ daos, c.conversations.find? d.id = none ∧ c.lookup d.participants = none) :
    (daos.foldl emplace c).MutuallyInverse ∧
      ∀ convId d, (daos.foldl emplace c).conversations.find? convId = some d ↔
        c.conversations.find? convId = some d ∨ d ∈ daos ∧ d.id = convId := by
  induction daos generalizing c with
  | nil => exact ⟨h, by simp⟩
  | cons dao daos ih =>
    obtain ⟨hdao, hunknown⟩ := hfree dao List.mem_cons_self
    rw [List.pairwise_cons] at hne
    obtain ⟨hinverse, hfind⟩ := ih (h.emplace hdao hunknown) hne.2 (by
      intro d hd
      rw [find?_emplace hdao, lookup_emplace, if_neg (hne.1 d hd).1, if_neg (hne.1 d hd).2]
      exact hfree d (List.mem_cons_of_mem _ hd))
    refine ⟨hinverse, ?_⟩
    intro convId d
    rw [List.foldl_cons, hfind, find?_emplace hdao, List.mem_cons]
    by_cases hid : dao.id = convId
    · subst hid
      rw [if_pos rfl, hdao, Option.some.injEq]
      constructor
      · rintro (rfl | ⟨hd, hid⟩)
        · exact .inr ⟨.inl rfl, rfl⟩
        · exact .inr ⟨.inr hd, hid⟩
      · rintro (hd | ⟨rfl | hd, hid⟩)
        · cases hd
        · exact .inl rfl
        · exact .inr ⟨hd, hid⟩
    · rw [if_neg hid]
      constructor
      · rintro (hd | ⟨hd, hd'⟩)
        · exact .inl hd
        · exact .inr ⟨.inr hd, hd'⟩
      · rintro (hd | ⟨rfl | hd, hd'⟩)
        · exact .inl hd
        · exact absurd hd' hid
        · exact .inr ⟨hd, hd'⟩

/-- The constructor caches every conversation of the database. -/
theorem construct_spec {db : Db} (hdb : ConversationDao.UniqueParticipants db) :
    (construct db).MutuallyInverse ∧
      ∀ convId, (construct db).conversations.find? convId = ConversationDao.load db convId := by
  have hempty : MutuallyInverse {} := by
    intro participants convId
    simp [lookup]
  obtain ⟨hinverse, hfind⟩ := foldl_emplace hempty (ConversationDao.pairwise_all hdb)
    (fun d _ => ⟨Table.find?_empty _, congrArg (Option.map Prod.snd) (Table.find?_empty _)⟩)
  refine ⟨hinverse, ?_⟩
  intro convId
  ext d
  unfold construct
  rw [hfind, ConversationDao.load_eq_some, ConversationDao.mem_all]
  constructor
  · rintro (hd | ⟨⟨r, hr, rfl⟩, hid⟩)
    · rw [Table.find?_empty] at hd
      cases hd
    · exact ⟨r, hr, hid, rfl⟩
  · rintro ⟨r, hr, hid, rfl⟩
    exact .inr ⟨⟨r, hr, rfl⟩, hid⟩

/-- The cache without a conversation. -/
def erase (c : ConversationsImpl) (dao : ConversationDao) : ConversationsImpl where
  participantsToConversationId := c.participantsToConversationId.deleteWhere (fun entry => entry.1 == dao.participants)
  conversations := c.conversations.deleteWhere (fun dao' => dao'.id == dao.id)

private theorem lookup_erase (c : ConversationsImpl) (dao : ConversationDao) (participants : String) :
    (c.erase dao).lookup participants = if dao.participants = participants then none else c.lookup participants := by
  unfold lookup erase
  rw [Table.find?_deleteWhere]
  cases hfind : c.participantsToConversationId.find? participants with
  | none => simp
  | some entry =>
    have hkey := Table.key_of_find? hfind
    by_cases hp : dao.participants = participants
    · simp [hp, hkey]
    · have hne : (entry.1 == dao.participants) = false := by simpa [hkey] using Ne.symm hp
      rw [if_neg hp, Option.filter_some, hne]
      rfl

theorem find?_erase (c : ConversationsImpl) (dao : ConversationDao) (convId : IdType) :
    (c.erase dao).conversations.find? convId = if dao.id = convId then none else c.conversations.find? convId := by
  unfold erase
  rw [Table.find?_deleteWhere]
  cases hfind : c.conversations.find? convId with
  | none => simp
  | some dao' =>
    have hkey := Table.key_of_find? hfind
    by_cases hid : dao.id = convId
    · simp [hid, hkey]
    · simp [hid, hkey, Ne.symm hid]

theorem MutuallyInverse.erase (h : c.MutuallyInverse) (hcached : c.conversations.find? dao.id = some dao) :
    (c.erase dao).MutuallyInverse := by
  intro participants convId
  rw [lookup_erase, find?_erase]
  have hlookup : c.lookup dao.participants = some dao.id := (h _ _).mpr (by rw [hcached]; rfl)
  by_cases hp : dao.participants = participants
  · by_cases hid : dao.id = convId
    · simp [hp, hid]
    · rw [if_pos hp, if_neg hid, ← h, ← hp, hlookup]
      simpa using hid
  · by_cases hid : dao.id = convId
    · rw [if_neg hp, if_pos hid, h, ← hid, hcached]
      simpa using hp
    · rw [if_neg hp, if_neg hid]
      exact h participants convId

/-- A cached conversation is removed, and the assertion holds. -/
theorem conversationWillBeRemoved_of_some {db : Db} {convId : IdType} (h : c.MutuallyInverse)
    (hcached : c.conversations.find? convId = some dao) :
    c.conversationWillBeRemoved db convId =
      .ok ([{ event := .conversationRemoved, conversationId := convId }], c.erase dao, dao.deletePermanently db) := by
  have hid : dao.id = convId := Table.key_of_find? hcached
  have hlookup : c.lookup dao.participants = some convId := (h _ _).mpr (by rw [hcached]; rfl)
  unfold conversationWillBeRemoved ConversationsImpl.erase
  rw [hcached, hid]
  simp only [hlookup, Option.isSome_some, kulloAssert_true, Imperative.ok_bind]

end ConversationsImpl

end KulloClient

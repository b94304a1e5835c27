import KulloClient.ApiImpl.ConversationsImpl
import KulloClient.Codec.MessageDecoder

/-!
# Participants

A conversation is found by the text of its participants, which the syncer and the API make on their own.  The text is
taken apart again for the conditions with which messages are counted.
-/

namespace KulloClient

open Imperative

/-! ### Counting messages -/

inductive MessagesFilter
  | read
  | unread
  | done
  | undone
  | incoming
  | outgoing
  | any

namespace ConversationDao

/-- The conditions that `loadMessageCount` puts together. -/
inductive Condition
  | true
  | readIs (value : Bool)
  | doneIs (value : Bool)
  | senderIs (participant : String)
  | senderIsNot (participant : String)
  | or (left right : Condition)
  | and (left right : Condition)

namespace Condition

/-- The columns are not NULL. -/
def holds (r : MessageRow) : Condition → Bool
  | .true => Bool.true
  | .readIs value => r.read == value
  | .doneIs value => r.done == value
  | .senderIs participant => r.sender == participant
  | .senderIsNot participant => r.sender != participant
  | .or left right => left.holds r || right.holds r
  | .and left right => left.holds r && right.holds r

/-- The parts of a list of participants, joined as they come; nothing for an empty list. -/
def joined (join : Condition → Condition → Condition) (part : String → Condition) (participants : List String) :
    Option Condition :=
  participants.foldl (fun sqlWherePart participant =>
    match sqlWherePart with
    | none => some (part participant)
    | some sqlWherePart => some (join sqlWherePart (part participant))) none

end Condition

/-- A participant is put between two quotes; with a quote in it that is no literal. -/
def isLiteral (participant : String) : Bool := !participant.toList.contains '\''

/-- `sqlWherePart`, unless SQLite refuses it: `()` is no condition. -/
def sqlWherePart (d : ConversationDao) (filter : MessagesFilter) : Except Exn Condition :=
  match filter with
  | .read => .ok (.readIs true)
  | .unread => .ok (.readIs false)
  | .done => .ok (.doneIs true)
  | .undone => .ok (.doneIs false)
  | .incoming => senders .or .senderIs
  | .outgoing => senders .and .senderIsNot
  | .any => .ok .true
where
  senders (join : Condition → Condition → Condition) (part : String → Condition) : Except Exn Condition :=
    if d.participantsList.all isLiteral then
      match Condition.joined join part d.participantsList with
      | some condition => .ok condition
      | none => .error (.sqliteException "syntax error")
    else .error (.sqliteException "syntax error")

def loadMessageCount (d : ConversationDao) (db : Db) (filter : MessagesFilter) : Except Exn Nat := do
  let condition ← d.sqlWherePart filter
  .ok (db.messages.rows.countP fun r => r.conversationId == d.id && !r.deleted && !r.old && condition.holds r)

/-! ### The conditions on senders -/

private theorem Condition.joined_cons (join : Condition → Condition → Condition) (part : String → Condition) (participant : String)
    (participants : List String) :
    joined join part (participant :: participants) =
      some (participants.foldl (fun condition p => join condition (part p)) (part participant)) := by
  unfold joined
  rw [List.foldl_cons]
  dsimp only
  generalize part participant = condition
  induction participants generalizing condition with
  | nil => rfl
  | cons p participants ih =>
    rw [List.foldl_cons, List.foldl_cons]
    exact ih (join condition (part p))

private theorem Condition.holds_foldl_or (r : MessageRow) (participants : List String) (condition : Condition) :
    (participants.foldl (fun condition p => .or condition (.senderIs p)) condition).holds r =
      (condition.holds r || participants.contains r.sender) := by
  induction participants generalizing condition with
  | nil => simp
  | cons p participants ih =>
    rw [List.foldl_cons, ih, holds, holds, List.contains_cons, Bool.or_assoc]

private theorem Condition.holds_foldl_and (r : MessageRow) (participants : List String) (condition : Condition) :
    (participants.foldl (fun condition p => .and condition (.senderIsNot p)) condition).holds r =
      (condition.holds r && !participants.contains r.sender) := by
  induction participants generalizing condition with
  | nil => simp
  | cons p participants ih =>
    rw [List.foldl_cons, ih, holds, holds, List.contains_cons, Bool.and_assoc, Bool.not_or]
    rfl

private theorem countP_and_add_countP_and_not {α : Type} (q p : α → Bool) (l : List α) :
    l.countP (fun a => q a && p a) + l.countP (fun a => q a && !p a) = l.countP q := by
  induction l with
  | nil => rfl
  | cons a l ih =>
    simp only [List.countP_cons]
    cases q a <;> cases p a <;> simp <;> omega

/-- What one filter counts and what the other counts make up all that is counted. -/
def Complementary (d : ConversationDao) (db : Db) (filter filter' : MessagesFilter) : Prop :=
  ∃ m n, d.loadMessageCount db filter = .ok m ∧ d.loadMessageCount db filter' = .ok n ∧
    d.loadMessageCount db .any = .ok (m + n)

private theorem complementary_of_not {d : ConversationDao} {filter filter' : MessagesFilter} {condition condition' : Condition}
    (h : d.sqlWherePart filter = .ok condition) (h' : d.sqlWherePart filter' = .ok condition')
    (hnot : ∀ r, condition'.holds r = !condition.holds r) (db : Db) : d.Complementary db filter filter' := by
  have hany : d.sqlWherePart .any = .ok .true := rfl
  unfold Complementary loadMessageCount
  rw [h, h', hany]
  refine ⟨_, _, rfl, rfl, ?_⟩
  show Except.ok _ = Except.ok _
  congr 1
  simp only [hnot, Condition.holds, Bool.and_true]
  exact (countP_and_add_countP_and_not (fun r => r.conversationId == d.id && !r.deleted && !r.old) condition.holds
    db.messages.rows).symm

private theorem complementary_read (d : ConversationDao) (db : Db) : d.Complementary db .read .unread := by
  have hread : d.sqlWherePart .read = .ok (.readIs true) := rfl
  have hunread : d.sqlWherePart .unread = .ok (.readIs false) := rfl
  refine complementary_of_not hread hunread ?_ db
  intro r
  cases h : r.read <;> simp [Condition.holds, h]

private theorem complementary_done (d : ConversationDao) (db : Db) : d.Complementary db .done .undone := by
  have hdone : d.sqlWherePart .done = .ok (.doneIs true) := rfl
  have hundone : d.sqlWherePart .undone = .ok (.doneIs false) := rfl
  refine complementary_of_not hdone hundone ?_ db
  intro r
  cases h : r.done <;> simp [Condition.holds, h]

/-- A condition for each participant is spliced in between the quotes; their negations are the other filter. -/
theorem complementary_incoming {d : ConversationDao} (hne : d.participantsList ≠ [])
    (hliteral : ∀ name ∈ d.participantsList, '\'' ∉ name.toList) (db : Db) :
    d.Complementary db .incoming .outgoing := by
  have hall : d.participantsList.all isLiteral = true := by
    rw [List.all_eq_true]
    intro name hmem
    simpa [isLiteral] using hliteral name hmem
  obtain ⟨name, names, hlist⟩ := List.exists_cons_of_ne_nil hne
  have hincoming : d.sqlWherePart .incoming =
      .ok (names.foldl (fun condition p => .or condition (.senderIs p)) (.senderIs name)) := by
    unfold sqlWherePart sqlWherePart.senders
    dsimp only
    rw [if_pos hall, hlist, Condition.joined_cons]
  have houtgoing : d.sqlWherePart .outgoing =
      .ok (names.foldl (fun condition p => .and condition (.senderIsNot p)) (.senderIsNot name)) := by
    unfold sqlWherePart sqlWherePart.senders
    dsimp only
    rw [if_pos hall, hlist, Condition.joined_cons]
  refine complementary_of_not hincoming houtgoing ?_ db
  intro r
  rw [Condition.holds_foldl_or, Condition.holds_foldl_and, Bool.not_or]
  rfl

/-! ### The two texts -/

private theorem quote_notMem_toString (a : KulloAddress) : '\'' ∉ a.toString.toList := a.notMem_toString rfl (by decide)

private theorem sortedNames_pairwise {participants : List KulloAddress} (h : participants.Nodup) :
    (sortedNames participants).Pairwise (· < ·) := by
  have hle : (sortedNames participants).Pairwise (· ≤ ·) := by
    unfold sortedNames
    simpa using List.pairwise_insertionSort (fun a b : String => decide (a ≤ b)) (participants.map KulloAddress.toString)
  have hne : (sortedNames participants).Nodup := by
    unfold sortedNames
    rw [(List.perm_insertionSort _ _).nodup_iff]
    exact h.map KulloAddress.toString_injective
  refine (hle.and hne).imp ?_
  rintro a b ⟨hab, hne⟩
  exact String.not_le.mp fun hba => hne (String.le_antisymm hab hba)

/-- Sorted names have no duplicates next to each other. -/
theorem makeParticipantsString_eq {participants participants' : List KulloAddress} (h : participants.Nodup)
    (hsame : ∀ a, a ∈ participants ↔ a ∈ participants') :
    makeParticipantsString participants = ConversationsImpl.participantsToString participants' := by
  rw [ConversationsImpl.participantsToString_congr fun a => (hsame a).symm]
  have hsorted := sortedNames_pairwise h
  have hchain : (sortedNames participants).IsChain (· ≠ ·) := (hsorted.imp fun hlt => String.ne_of_lt hlt).isChain
  have hdestutter : (sortedNames participants).destutter (· ≠ ·) = sortedNames participants :=
    List.destutter_of_isChain (· ≠ ·) _ hchain
  unfold makeParticipantsString ConversationsImpl.participantsToString
  unfold sortedNames at hdestutter
  dsimp only
  rw [hdestutter]

private theorem participantsList_of_key {participants : List KulloAddress} (hne : participants ≠ []) (hset : participants.Nodup)
    {d : ConversationDao} (h : d.participants = makeParticipantsString participants) :
    d.participantsList.Pairwise (· < ·) ∧
      ∀ name, name ∈ d.participantsList ↔ ∃ a ∈ participants, a.toString = name := by
  rw [participantsList_make hne h]
  exact ⟨sortedNames_pairwise hset, fun _ => mem_sortedNames⟩

/-- Different sets have different texts, since `participantsList` finds the addresses again. -/
theorem mem_of_makeParticipantsString_eq {participants participants' : List KulloAddress} (hne : participants ≠ [])
    (hne' : participants' ≠ []) (h : makeParticipantsString participants = makeParticipantsString participants')
    {a : KulloAddress} (ha : a ∈ participants) : a ∈ participants' := by
  have hlist := participantsList_make (d := { participants := makeParticipantsString participants }) hne rfl
  have hlist' := participantsList_make (d := { participants := makeParticipantsString participants }) hne' h
  have hmem : a.toString ∈ sortedNames participants := mem_sortedNames.mpr ⟨a, ha, rfl⟩
  rw [← hlist, hlist', mem_sortedNames] at hmem
  obtain ⟨b, hb, heq⟩ := hmem
  rw [← KulloAddress.toString_injective heq]
  exact hb

private theorem participantsList_ne_nil {participants : List KulloAddress} (hne : participants ≠ []) {d : ConversationDao}
    (h : d.participants = makeParticipantsString participants) : d.participantsList ≠ [] := by
  rw [participantsList_make hne h]
  intro hnil
  obtain ⟨a, ha⟩ := List.exists_mem_of_ne_nil participants hne
  have hmem : a.toString ∈ sortedNames participants := mem_sortedNames.mpr ⟨a, ha, rfl⟩
  rw [hnil] at hmem
  exact absurd hmem List.not_mem_nil

private theorem quote_notMem_participantsList {participants : List KulloAddress} (hne : participants ≠ []) {d : ConversationDao}
    (h : d.participants = makeParticipantsString participants) {name : String} (hname : name ∈ d.participantsList) :
    '\'' ∉ name.toList := by
  rw [participantsList_make hne h, mem_sortedNames] at hname
  obtain ⟨a, -, rfl⟩ := hname
  exact quote_notMem_toString a

/-! ### A conversation created on either path -/

/-- A new conversation is in the table. -/
theorem save_eq_true {d dao : ConversationDao} {db db' : Db} (h : d.save db = .ok (true, dao, db')) :
    (∀ r ∈ db.conversations, r.participants ≠ d.participants) ∧ dao = ⟨nextId db, d.participants, false, true⟩ ∧
      db' = insertNew db d.participants := by
  unfold save at h
  split at h
  · obtain ⟨_, -, h⟩ := bind_eq_ok.mp h
    obtain ⟨_, -, h⟩ := bind_eq_ok.mp h
    split at h
    · cases h
    · next hany =>
      have hinsert : insertRow db.conversations ⟨nextId db, d.participants⟩ =
          .ok (db.conversations.insert ⟨nextId db, d.participants⟩ (find?_nextId db)) :=
        insertRow_of_find? (find?_nextId db)
      rw [hinsert] at h
      cases h
      refine ⟨?_, rfl, rfl⟩
      intro r hr heq
      exact hany (List.any_eq_true.mpr ⟨r, hr, by simpa using heq⟩)
  · cases h

private theorem loadByParticipants_insertNew {db : Db} {participants : List KulloAddress}
    (hfree : ∀ r ∈ db.conversations, r.participants ≠ makeParticipantsString participants) :
    loadByParticipants (insertNew db (makeParticipantsString participants)) participants =
      some ⟨nextId db, makeParticipantsString participants, false, true⟩ := by
  have hrows : (insertNew db (makeParticipantsString participants)).conversations.rows =
      db.conversations.rows ++ [⟨nextId db, makeParticipantsString participants⟩] := rfl
  have hold : db.conversations.rows.find? (fun r => r.participants == makeParticipantsString participants) = none := by
    rw [List.find?_eq_none]
    intro r hr
    simpa using hfree r hr
  unfold loadByParticipants
  rw [hrows, List.find?_append, hold]
  simp [ofRow]

/-- The syncer creates the conversation, and the API finds it once its event is delivered. -/
theorem get_of_save {participants participants' : List KulloAddress} {db db' : Db} {dao : ConversationDao}
    (hkey : makeParticipantsString participants = ConversationsImpl.participantsToString participants')
    (hne : participants' ≠ [])
    (h : (({} : ConversationDao).setParticipants participants).save db = .ok (true, dao, db'))
    (hrange : dao.id ≤ idMax) (c : ConversationsImpl) :
    ∃ events c', c.conversationAdded db' dao.id = .ok (events, c') ∧ c'.get participants' = .ok (some dao.id) := by
  have hparticipants : (({} : ConversationDao).setParticipants participants).participants =
      makeParticipantsString participants := by
    unfold setParticipants
    split
    · next heq => exact heq
    · rfl
  obtain ⟨-, rfl, rfl⟩ := save_eq_true h
  rw [hparticipants] at *
  have hload : load (insertNew db (makeParticipantsString participants)) (nextId db) =
      some ⟨nextId db, makeParticipantsString participants, false, true⟩ := by
    rw [load_insertNew, if_pos rfl]
  refine ⟨_, _, ConversationsImpl.conversationAdded_eq hrange hload, ?_⟩
  have hempty : (!participants'.isEmpty) = true := by simpa using hne
  unfold ConversationsImpl.get ConversationsImpl.lookup ConversationsImpl.emplace
  rw [hempty, kulloAssert_true, ok_bind, ← hkey]
  simp

/-- The API creates the conversation, and the syncer finds it. -/
theorem loadByParticipants_of_add {participants participants' : List KulloAddress} {c : ConversationsImpl}
    {db db' : Db} {currentUserAddress : KulloAddress} {convId : IdType}
    (hkey : makeParticipantsString participants = ConversationsImpl.participantsToString participants')
    (h : c.add db currentUserAddress participants' = .ok (convId, db', [.conversationAdded convId])) :
    ∃ dao, loadByParticipants db' participants = some dao ∧ dao.id = convId := by
  rcases c.add_cases db currentUserAddress participants' with ⟨-, _, heq⟩ | ⟨_, -, heq⟩ | ⟨-, -, heq⟩
  · rw [heq] at h
    cases h
  · rw [heq] at h
    cases h
  · rw [heq] at h
    cases hsave : ConversationDao.save { participants := ConversationsImpl.participantsToString participants' } db with
    | error e =>
      rw [hsave] at h
      cases h
    | ok r =>
      obtain ⟨isNew, dao, db''⟩ := r
      rw [hsave] at h
      cases h
      have hnew : isNew = true := by
        cases isNew with
        | true => rfl
        | false =>
          unfold save at hsave
          rw [if_pos rfl] at hsave
          obtain ⟨_, -, hsave⟩ := bind_eq_ok.mp hsave
          obtain ⟨_, -, hsave⟩ := bind_eq_ok.mp hsave
          split at hsave
          · cases hsave
          · obtain ⟨_, -, hsave⟩ := bind_eq_ok.mp hsave
            cases hsave
      subst hnew
      obtain ⟨hfree, rfl, rfl⟩ := save_eq_true hsave
      simp only [← hkey] at hfree ⊢
      exact ⟨_, loadByParticipants_insertNew hfree, rfl⟩

/-- One text for each set of participants, whoever makes it, and counts that add up. -/
theorem participants_key {participants : List KulloAddress} (hne : participants ≠ []) (hset : participants.Nodup) :
    (∀ participants', (∀ a, a ∈ participants ↔ a ∈ participants') →
      makeParticipantsString participants = ConversationsImpl.participantsToString participants' ∧
      (∀ db dao db', (({} : ConversationDao).setParticipants participants).save db = .ok (true, dao, db') →
        dao.id ≤ idMax → ∀ c : ConversationsImpl, ∃ events c',
          c.conversationAdded db' dao.id = .ok (events, c') ∧ c'.get participants' = .ok (some dao.id)) ∧
      ∀ (c : ConversationsImpl) db currentUserAddress convId db',
        c.add db currentUserAddress participants' = .ok (convId, db', [.conversationAdded convId]) →
        ∃ dao, loadByParticipants db' participants = some dao ∧ dao.id = convId) ∧
    (∀ participants', participants' ≠ [] → participants'.Nodup →
      makeParticipantsString participants = makeParticipantsString participants' →
      ∀ a, a ∈ participants ↔ a ∈ participants') ∧
    ∀ d : ConversationDao, d.participants = makeParticipantsString participants →
      d.participantsList.Pairwise (· < ·) ∧
      (∀ name, name ∈ d.participantsList ↔ ∃ a ∈ participants, a.toString = name) ∧
      ∀ db, d.Complementary db .incoming .outgoing ∧ d.Complementary db .read .unread ∧
        d.Complementary db .done .undone := by
  refine ⟨?_, ?_, ?_⟩
  · intro participants' hsame
    have hne' : participants' ≠ [] := by
      obtain ⟨a, ha⟩ := List.exists_mem_of_ne_nil participants hne
      exact List.ne_nil_of_mem ((hsame a).mp ha)
    have hkey := makeParticipantsString_eq hset hsame
    exact ⟨hkey, fun _ _ _ hsave hrange => get_of_save hkey hne' hsave hrange,
      fun _ _ _ _ _ hadd => loadByParticipants_of_add hkey hadd⟩
  · intro participants' hne' _ h a
    exact ⟨mem_of_makeParticipantsString_eq hne hne' h, mem_of_makeParticipantsString_eq hne' hne h.symm⟩
  · intro d hd
    obtain ⟨hsorted, hmem⟩ := participantsList_of_key hne hset hd
    refine ⟨hsorted, hmem, ?_⟩
    intro db
    -- no address has a quote, so it is one name in the query
    have hincoming := complementary_incoming (participantsList_ne_nil hne hd)
      (fun _ => quote_notMem_participantsList hne hd) db
    exact ⟨hincoming, complementary_read d db, complementary_done d db⟩

theorem participants_key_two :
    let alice : KulloAddress := ⟨"alice", "kullo.test", by decide, by decide, by decide, by decide⟩
    let bob : KulloAddress := ⟨"bob", "kullo.test", by decide, by decide, by decide, by decide⟩
    let d : ConversationDao := { participants := makeParticipantsString [alice, bob] }
    makeParticipantsString [alice, bob] = ConversationsImpl.participantsToString [bob, alice, bob] ∧
      "bob#kullo.test" ∈ d.participantsList ∧ d.Complementary {} .incoming .outgoing := by
  intro alice bob d
  have h := @participants_key [alice, bob] (by simp) (by decide)
  have hsame : ∀ a, a ∈ [alice, bob] ↔ a ∈ [bob, alice, bob] := by
    intro a
    simp only [List.mem_cons, List.not_mem_nil, or_false]
    tauto
  obtain ⟨-, hmem, hcounts⟩ := h.2.2 d rfl
  exact ⟨(h.1 _ hsame).1, (hmem "bob#kullo.test").mpr ⟨bob, by simp, rfl⟩, (hcounts {}).1⟩

end ConversationDao

end KulloClient

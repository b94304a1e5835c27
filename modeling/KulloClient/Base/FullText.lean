import Mathlib.Data.List.Basic

/-!
# Full-text indexes with external content

An index does not hold the rows it was made from: it is told of each entry that is added, and, to forget one, it has to
be told the values that were indexed.  `Replaces` says that some commands turn the entries of one row into those of
another, whatever else is indexed; the index of a table then follows every change of a row.
-/

namespace FullText

variable {ε : Type*}

/-- `INSERT INTO index ...`, as a new entry or as the command `'delete'`. -/
inductive Command (ε : Type*)
  | insert (entry : ε)
  | delete (entry : ε)
  deriving DecidableEq

variable [DecidableEq ε]

/-- The entries after a command; a `'delete'` with values that are not indexed corrupts the index. -/
def Command.apply (entries : List ε) : Command ε → Option (List ε)
  | .insert entry => some (entry :: entries)
  | .delete entry => if entry ∈ entries then some (entries.erase entry) else none

def applyAll (entries : List ε) (commands : List (Command ε)) : Option (List ε) := commands.foldlM Command.apply entries

/-- The commands turn the entry of a row, if it has one, into another, and leave the other entries alone. -/
def Replaces (commands : List (Command ε)) (entry entry' : Option ε) : Prop :=
  ∀ entries rest : List ε, entries.Perm (entry.toList ++ rest) →
    ∃ entries', applyAll entries commands = some entries' ∧ entries'.Perm (entry'.toList ++ rest)

theorem replaces_nil (entry : Option ε) : Replaces [] entry entry :=
  fun entries _ hentries => ⟨entries, rfl, hentries⟩

theorem replaces_insert (e : ε) : Replaces [.insert e] none (some e) :=
  fun entries _ hentries => ⟨e :: entries, rfl, hentries.cons e⟩

theorem replaces_delete (e : ε) : Replaces [.delete e] (some e) none := by
  intro entries rest hentries
  have hmem : e ∈ entries := hentries.mem_iff.mpr List.mem_cons_self
  refine ⟨entries.erase e, ?_, ?_⟩
  · unfold applyAll
    rw [List.foldlM_cons, Command.apply, if_pos hmem]
    rfl
  · have herase := hentries.erase e
    rwa [Option.toList_some, List.singleton_append, List.erase_cons_head] at herase

theorem Replaces.append {commands commands' : List (Command ε)} {entry entry' entry'' : Option ε}
    (h : Replaces commands entry entry') (h' : Replaces commands' entry' entry'') :
    Replaces (commands ++ commands') entry entry'' := by
  intro entries rest hentries
  obtain ⟨entries₁, happly₁, hentries₁⟩ := h entries rest hentries
  obtain ⟨entries₂, happly₂, hentries₂⟩ := h' entries₁ rest hentries₁
  refine ⟨entries₂, ?_, hentries₂⟩
  unfold applyAll at *
  rw [List.foldlM_append, happly₁]
  exact happly₂

section rows

variable {ρ : Type*} (entryOf : ρ → Option ε)

/-- The index has an entry for each row that is searched, and no other. -/
def Indexes (rows : List ρ) (entries : List ε) : Prop := entries.Perm (rows.filterMap entryOf)

variable {entryOf} {entries : List ε} {before after : List ρ} {commands : List (Command ε)}

omit [DecidableEq ε] in
theorem filterMap_toList (row : Option ρ) : row.toList.filterMap entryOf = (row.bind entryOf).toList := by
  cases row with
  | none => rfl
  | some r => cases h : entryOf r <;> simp [h]

/-- A row is inserted, updated or deleted, and the commands turn its old entry into the new one. -/
theorem Indexes.change {row row' : Option ρ} (hcommands : Replaces commands (row.bind entryOf) (row'.bind entryOf))
    (h : Indexes entryOf (before ++ row.toList ++ after) entries) :
    ∃ entries', applyAll entries commands = some entries' ∧
      Indexes entryOf (before ++ row'.toList ++ after) entries' := by
  unfold Indexes at *
  have hfront : ∀ o : Option ρ, ((before ++ o.toList ++ after).filterMap entryOf).Perm
      ((o.bind entryOf).toList ++ (before.filterMap entryOf ++ after.filterMap entryOf)) := by
    intro o
    rw [List.filterMap_append, List.filterMap_append, filterMap_toList, ← List.append_assoc]
    exact List.perm_append_comm.append_right _
  obtain ⟨entries', happly, hperm⟩ := hcommands entries _ (h.trans (hfront row))
  exact ⟨entries', happly, hperm.trans (hfront row').symm⟩

end rows

end FullText

import LineRules.Proofs.Store

/-!
Drafts. A file is replaced in stages: a draft is made in its folder, filled, and moved over the
file. A disk can refuse each stage; what is left of the draft is dropped then. The draft stands at a
place where nothing was, so while it is there all else is as before, and so is everything once it is
gone: whatever the disk does, the file holds its old contents or the new ones, and nothing is added.
-/
namespace LineRules

namespace Store

variable {s t after : Store} {names others : List String} {place : Place}
  {path : String} {bytes old : ByteArray}

def drop (s : Store) (names : List String) : Store :=
  ⟨s.entries.filter fun known => known.1 ≠ names⟩

theorem entry_drop (filled : names ≠ []) : entry? (s.drop names) names = none := by
  have absent : ∀ known ∈ s.entries.filter fun known => known.1 ≠ names, known.1 ≠ names := by
    simp
  rw [ entry?, if_neg (by simpa using filled), List.lookup_eq_none_iff]
  intro known member
  simpa using (absent known member).symm

theorem entry_drop_other (other : others ≠ names) :
    entry? (s.drop names) others = s.entry? others := by
  simp only [drop, entry?, lookup_others other]

def putAt (s : Store) (e : Entry) : Place → Store
  | .inside names => s.put names e
  | .around => s

def dropAt (s : Store) : Place → Store
  | .inside names => s.drop names
  | .around => s

def folder (s : Store) (path : String) : Except FileError Place := do
  let (folder, name) ← s.locate (parts path)
  match s.lookIn name folder with
  | some .folder => return follow name folder
  | some (.file _) => throw .notAFolder
  | none => throw .notFound

theorem checkFolder_folder (s : Store) (path : String) :
    s.checkFolder path = (s.folder path).map fun _ => () := by
  unfold checkFolder folder
  cases s.locate (parts path) with
  | error e => rfl
  | ok found =>
    simp only [ok_bind, pure_ok, throw_error]
    cases s.lookIn found.2 found.1 with
    | none => rfl
    | some e => cases e <;> rfl

def folderPath (path : String) : String :=
  if (parent path).isEmpty then "." else parent path

/-- What a disk adds to the files on it: the name it gives to a draft, the stages it refuses and, if
it refuses to fill a draft, what that holds by then. -/
structure Disk where
  draft : String
  creating : Option FileError := none
  filling : Option FileError := none
  moving : Option FileError := none
  written : ByteArray := .empty

def Disk.calm (draft : String) : Disk :=
  { draft }

/-- Replaces a file in stages. A draft that was not moved over the file is dropped. -/
def replaceBy (disk : Disk) (s : Store) (path : String) (bytes : ByteArray) :
    Except ReplaceError Unit × Store :=
  match s.folder (folderPath path) with
  | .error e => (.error (.create e), s)
  | .ok folder =>
    let place := follow disk.draft folder
    match disk.creating with
    | some e => (.error (.create e), s)
    | none =>
      let made := s.putAt (.file .empty) place
      match disk.filling with
      | some e => (.error (.create e), (made.putAt (.file disk.written) place).dropAt place)
      | none =>
        let filled := made.putAt (.file bytes) place
        match disk.moving with
        | some e => (.error (.move e), filled.dropAt place)
        | none =>
          match filled.moveOver path bytes with
          | .error e => (.error (.move e), filled.dropAt place)
          -- The draft is the file now, and its own name is gone.
          | .ok moved => (.ok (), moved.dropAt place)

def Same (s t : Store) : Prop :=
  ∀ names, t.entry? names = s.entry? names

/-- The file at a path holds these bytes, and every other entry is the same. -/
def Replaced (s : Store) (path : String) (bytes : ByteArray) (after : Store) : Prop :=
  ∃ names old, s.Leads path names ∧ s.entry? names = some (.file old) ∧
    after.entry? names = some (.file bytes) ∧
    ∀ others, others ≠ names → after.entry? others = s.entry? others

theorem Replaced.read (replaced : s.Replaced path bytes after) : after.read path = .ok bytes := by
  obtain ⟨names, old, leads, before, here, beside⟩ := replaced
  have folders : SameFolders s after := by
    intro others
    by_cases other : others = names
    · simp [other, before, here]
    · rw [beside others other]
  exact read_of_leads ((leads_sameFolders folders).mp leads) here

def Vacant (s : Store) (place : Place) : Prop :=
  ∀ names, place = .inside names → s.entry? names = none

def Disk.Fresh (disk : Disk) (s : Store) (path : String) : Prop :=
  ∀ folder, s.folder (folderPath path) = .ok folder → s.Vacant (follow disk.draft folder)

structure Drafted (place : Place) (s t : Store) : Prop where
  vacant : s.Vacant place
  draft : ∀ names, place = .inside names → t.entry? names ≠ some .folder
  beside : ∀ names, place ≠ .inside names → t.entry? names = s.entry? names

theorem Vacant.filled (vacant : s.Vacant (.inside names)) : names ≠ [] := by
  rintro rfl
  simpa [ entry?] using vacant [] rfl

theorem drafted_put (vacant : s.Vacant place)
    (beside : ∀ names, place ≠ .inside names → t.entry? names = s.entry? names)
    (content : ByteArray) :
    Drafted place s (t.putAt (.file content) place) := by
  cases place with
  | around => exact ⟨vacant, by simp, beside⟩
  | inside names =>
    refine ⟨vacant, ?_, ?_⟩
    · intro same here
      cases here
      simp [putAt, entry_put vacant.filled]
    · intro others other
      have apart : others ≠ names := fun same => other (congrArg _ same.symm)
      exact (entry_put_other apart _).trans (beside others other)

theorem Drafted.refill (drafted : Drafted place s t) (content : ByteArray) :
    Drafted place s (t.putAt (.file content) place) :=
  drafted_put drafted.vacant drafted.beside content

theorem Drafted.dropped (drafted : Drafted place s t) : s.Same (t.dropAt place) := by
  cases place with
  | around => exact fun names => drafted.beside names (by simp)
  | inside names =>
    intro others
    by_cases here : others = names
    · rw [here, dropAt, entry_drop drafted.vacant.filled, drafted.vacant names rfl]
    · rw [dropAt, entry_drop_other here]
      exact drafted.beside others fun same => here (Place.inside.inj same).symm

theorem Drafted.sameFolders (drafted : Drafted place s t) : SameFolders s t := by
  intro names
  by_cases here : place = .inside names
  · simp [drafted.vacant names here, drafted.draft names here]
  · rw [drafted.beside names here]

theorem Drafted.put (drafted : Drafted place s t) (filled : names ≠ [])
    (apart : place ≠ .inside names) (e : Entry) :
    Drafted place (s.put names e) (t.put names e) := by
  have other {draft : List String} (same : place = .inside draft) : draft ≠ names :=
    fun here => apart (here ▸ same)
  refine ⟨?_, ?_, ?_⟩
  · intro draft same
    rw [entry_put_other (other same), drafted.vacant draft same]
  · intro draft same
    rw [entry_put_other (other same)]
    exact drafted.draft draft same
  · intro others beside
    by_cases here : others = names
    · rw [here, entry_put filled, entry_put filled]
    · rw [entry_put_other here, entry_put_other here, drafted.beside others beside]

/-- A draft is moved over a file that is there, as if the new file had been there at once. -/
theorem Drafted.moved (drafted : Drafted place s t) (leads : s.Leads path names)
    (here : s.entry? names = some (.file old)) (bytes : ByteArray) :
    t.moveOver path bytes = .ok (t.put names (.file bytes)) ∧
      (s.put names (.file bytes)).Same ((t.put names (.file bytes)).dropAt place) := by
  have apart : place ≠ .inside names := by
    intro same
    simp [drafted.vacant names same] at here
  have still : t.entry? names = some (.file old) := (drafted.beside names apart).trans here
  have leadsToo : t.Leads path names := (leads_sameFolders drafted.sameFolders).mp leads
  exact ⟨moveOver_leads leadsToo (by simp [still]), (drafted.put leads.filled apart _).dropped⟩

def replaceAtOnce (s : Store) (path : String) (bytes : ByteArray) :
    Except ReplaceError Unit × Store :=
  match s.replace path bytes with
  | .ok after => (.ok (), after)
  | .error e => (.error e, s)

theorem replace_folder (s : Store) (path : String) (bytes : ByteArray) :
    s.replace path bytes =
      match s.folder (folderPath path) with
      | .error e => .error (.create e)
      | .ok _ => (s.moveOver path bytes).mapError .move := by
  simp only [replace, folderPath, checkFolder_folder]
  cases s.folder (if (parent path).isEmpty then "." else parent path) with
  | error e => rfl
  | ok folder =>
    simp only [Except.map]
    cases s.moveOver path bytes with
    | error e => rfl
    | ok after => rfl

/-- With a disk that refuses nothing, the stages come to replacing the file at once. -/
theorem replaceBy_calm {draft : String} (fresh : (Disk.calm draft).Fresh s path)
    (reads : s.read path = .ok old) (bytes : ByteArray) :
    let whole := s.replaceAtOnce path bytes
    let staged := replaceBy (.calm draft) s path bytes
    staged.1 = whole.1 ∧ whole.2.Same staged.2 := by
  obtain ⟨names, leads, here⟩ := read_leads reads
  have free : s.entry? names ≠ some .folder := by simp [here]
  simp only [replaceAtOnce, replaceBy, replace_folder]
  cases found : s.folder (folderPath path) with
  | error e => exact ⟨rfl, fun _ => rfl⟩
  | ok folder =>
    have made : Drafted _ s (s.putAt (.file .empty) (follow (Disk.calm draft).draft folder)) :=
      drafted_put (fresh folder found) (fun _ _ => rfl) _
    obtain ⟨moves, same⟩ := (made.refill bytes).moved leads here bytes
    simp only [Disk.calm] at moves same ⊢
    simp only [moveOver_leads leads free, moves]
    exact ⟨rfl, same⟩

end Store

end LineRules

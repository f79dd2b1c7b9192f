import LineRules.Proofs.Outcome
import LineRules.Proofs.Store.Path

namespace LineRules

namespace Store

variable {s t after : Store} {names others base : List String} {place last : Place}
  {part name : String} {path : String} {bytes old : ByteArray}

theorem lookup_others (other : others ≠ names) (known : List (List String × Entry)) :
    (known.filter fun k => k.1 ≠ names).lookup others = known.lookup others := by
  induction known with
  | nil => rfl
  | cons k known ih =>
    by_cases here : k.1 = names
    · rw [List.filter_cons_of_neg (by simpa using here), ih, List.lookup_cons,
        beq_false_of_ne (here ▸ other)]
    · rw [List.filter_cons_of_pos (by simpa using here), List.lookup_cons, List.lookup_cons, ih]

theorem entry_put (filled : names ≠ []) (e : Entry) : entry? (s.put names e) names = some e := by
  simp [put, entry?, filled]

theorem entry_put_other (other : others ≠ names) (e : Entry) :
    entry? (s.put names e) others = s.entry? others := by
  simp only [put, entry?, List.lookup_cons, beq_false_of_ne other, lookup_others other]

def SameFolders (s t : Store) : Prop :=
  ∀ names, s.entry? names = some .folder ↔ t.entry? names = some .folder

theorem sameFolders_put (free : s.entry? names ≠ some .folder) (bytes : ByteArray) :
    SameFolders s (s.put names (.file bytes)) := by
  intro others
  by_cases other : others = names
  · subst other
    have filled : others ≠ [] := by
      rintro rfl
      exact free rfl
    simp [free, entry_put filled]
  · rw [entry_put_other other]

theorem lookIn_folder (same : SameFolders s t) :
    s.lookIn part place = some .folder ↔ t.lookIn part place = some .folder := by
  cases place with
  | around => exact Iff.rfl
  | inside base =>
    simp only [lookIn]
    split
    · exact Iff.rfl
    · exact same _

theorem walk_cons {rest : List String} :
    s.walk place (part :: rest) = .ok last ↔
      s.lookIn part place = some .folder ∧ s.walk (follow part place) rest = .ok last := by
  rw [walk]
  split <;> simp_all

theorem walk_sameFolders (same : SameFolders s t) {parts : List String} :
    s.walk place parts = .ok last ↔ t.walk place parts = .ok last := by
  induction parts generalizing place with
  | nil => exact Iff.rfl
  | cons part rest ih =>
    rw [walk_cons, walk_cons]
    exact and_congr (lookIn_folder same) ih

theorem locate_ok {parts : List String} {name : String} :
    s.locate parts = .ok (place, name) ↔
      parts ≠ [""] ∧ name = parts.getLastD "" ∧
        s.walk (if parts.head? = some "" then .around else .inside []) parts.dropLast =
          .ok place := by
  unfold locate
  by_cases empty : parts = [""]
  · simp [empty]
  · cases goes : s.walk (if parts.head? = some "" then .around else .inside []) parts.dropLast with
    | error e => simp [empty, goes]
    | ok folder => simp [empty, goes, and_comm, eq_comm]

theorem locate_sameFolders (same : SameFolders s t) {parts : List String} :
    s.locate parts = .ok (place, name) ↔ t.locate parts = .ok (place, name) := by
  rw [locate_ok, locate_ok, walk_sameFolders same]

theorem follow_name (isName : isName part = true) :
    follow part (.inside base) = .inside (base ++ [part]) := by
  simp only [Store.isName, decide_eq_true_eq] at isName
  simp [follow, isName]

theorem lookIn_name (isName : isName part = true) :
    s.lookIn part (.inside base) = s.entry? (base ++ [part]) := by
  simp only [lookIn, follow_name isName]

/-- A path leads to a place inside the working folder, which a file can have. -/
def Leads (s : Store) (path : String) (names : List String) : Prop :=
  ∃ base name, s.locate (parts path) = .ok (.inside base, name) ∧ isName name = true ∧
    names = base ++ [name]

theorem Leads.filled (leads : s.Leads path names) : names ≠ [] := by
  obtain ⟨base, name, -, -, rfl⟩ := leads
  simp

theorem Leads.unique (leads : s.Leads path names) (too : s.Leads path others) : names = others := by
  obtain ⟨base, name, found, -, rfl⟩ := leads
  obtain ⟨base', name', found', -, rfl⟩ := too
  rw [found, Except.ok.injEq, Prod.mk.injEq, Place.inside.injEq] at found'
  rw [found'.1, found'.2]

theorem leads_sameFolders (same : SameFolders s t) : s.Leads path names ↔ t.Leads path names := by
  simp only [Leads, locate_sameFolders same]

theorem moveOver_ok (moved : s.moveOver path bytes = .ok after) :
    ∃ names, s.Leads path names ∧ s.entry? names ≠ some .folder ∧
      after = s.put names (.file bytes) := by
  unfold moveOver at moved
  simp only [throw_error, error_bind, pure_ok] at moved
  split at moved
  · simp at moved
  obtain ⟨⟨folder, name⟩, found, moved⟩ := bind_ok.mp moved
  split at moved
  · simp at moved
  split at moved
  · simp at moved
  rename_i named plain
  have isName : isName name = true := by simpa using named
  rw [Classical.not_not.mp plain] at found
  cases folder with
  | around =>
    split at moved
    · simp at moved
    · rename_i same _
      simp [follow] at same
    · simp at moved
  | inside base =>
    simp only [lookIn, follow_name isName] at moved
    split at moved
    · simp at moved
    · rename_i same free
      cases same
      exact ⟨_, ⟨base, name, found, isName, rfl⟩, free, (Except.ok.inj moved).symm⟩
    · simp at moved

theorem parts_empty : parts "" = [""] := by
  rw [parts_eq]
  decide

theorem partsTrimmed_of_name (named : isName ((parts path).getLastD "") = true) :
    partsTrimmed path = parts path := by
  rw [partsTrimmed]
  rcases List.eq_nil_or_concat (parts path) with none | ⟨front, name, some⟩
  · rw [none]
    rfl
  · have filled : name ≠ "" := by
      rintro rfl
      simp [some, isName] at named
    simp [some, filled]

theorem moveOver_leads (leads : s.Leads path names) (free : s.entry? names ≠ some .folder) :
    s.moveOver path bytes = .ok (s.put names (.file bytes)) := by
  obtain ⟨base, name, found, isName, rfl⟩ := leads
  obtain ⟨some, last, -⟩ := locate_ok.mp found
  have filled : path.isEmpty = false := by
    rw [← Bool.not_eq_true, String.isEmpty_iff]
    rintro rfl
    exact some parts_empty
  have trimmed : partsTrimmed path = parts path := partsTrimmed_of_name (last ▸ isName)
  simp [moveOver, filled, trimmed, found, isName, lookIn_name isName, follow_name isName]

theorem replace_ok (replaced : s.replace path bytes = .ok after) :
    ∃ names, s.Leads path names ∧ s.entry? names ≠ some .folder ∧
      after = s.put names (.file bytes) := by
  unfold replace at replaced
  simp only [throw_error, pure_ok] at replaced
  split at replaced
  · simp at replaced
  · split at replaced
    · rename_i moved
      rw [Except.ok.inj replaced] at moved
      exact moveOver_ok moved
    · simp at replaced

theorem read_ok :
    s.read path = .ok bytes ↔ ∃ place name, s.locate (parts path) = .ok (place, name) ∧
      s.lookIn name place = some (.file bytes) := by
  rw [read, bind_ok]
  constructor
  · rintro ⟨⟨place, name⟩, found, reads⟩
    refine ⟨place, name, found, ?_⟩
    dsimp only at reads
    split at reads
    · rename_i content here
      rw [here, Except.ok.inj reads]
    · simp at reads
    · simp at reads
  · rintro ⟨place, name, found, here⟩
    exact ⟨(place, name), found, by simp [here]⟩

theorem read_of_leads (leads : s.Leads path names) (here : s.entry? names = some (.file bytes)) :
    s.read path = .ok bytes := by
  obtain ⟨base, name, found, isName, rfl⟩ := leads
  exact read_ok.mpr ⟨_, _, found, (lookIn_name isName).trans here⟩

theorem read_put (leads : s.Leads path names) (free : s.entry? names ≠ some .folder) :
    (s.put names (.file bytes)).read path = .ok bytes :=
  read_of_leads ((leads_sameFolders (sameFolders_put free bytes)).mp leads)
    (entry_put leads.filled _)

theorem read_replaced (replaced : s.replace path bytes = .ok after) :
    after.read path = .ok bytes := by
  obtain ⟨names, leads, free, rfl⟩ := replace_ok replaced
  exact read_put leads free

def Reached (s : Store) (place : Place) : Prop :=
  ∀ base, place = .inside base → ∀ front, front <+: base → s.entry? front = some .folder

theorem reached_follow (reached : s.Reached place) (folder : s.lookIn part place = some .folder) :
    s.Reached (follow part place) := by
  cases place with
  | around => simp [Reached, follow]
  | inside base =>
    have before := reached base rfl
    intro longer place front inside
    simp only [lookIn, place] at folder
    simp only [follow] at place
    split at place
    · exact before front (by cases place; exact inside)
    · split at place
      · split at place
        · simp at place
        · cases place
          exact before front (inside.trans (List.dropLast_prefix base))
      · cases place
        rcases List.prefix_concat_iff.mp inside with rfl | shorter
        · exact folder
        · exact before front shorter

theorem reached_walk {parts : List String} (reached : s.Reached place)
    (goes : s.walk place parts = .ok last) : s.Reached last := by
  induction parts generalizing place with
  | nil =>
    obtain rfl := Except.ok.inj goes
    exact reached
  | cons part rest ih =>
    obtain ⟨folder, later⟩ := walk_cons.mp goes
    exact ih (reached_follow reached folder) later

theorem reached_locate {parts : List String} (found : s.locate parts = .ok (place, name)) :
    s.Reached place := by
  obtain ⟨-, -, walked⟩ := locate_ok.mp found
  refine reached_walk ?_ walked
  split
  · simp [Reached]
  · intro base same front inside
    cases same
    rw [List.prefix_nil.mp inside]
    rfl

theorem lookIn_noName (reached : s.Reached place) (noName : ¬isName part = true) :
    s.lookIn part place = some .folder := by
  have parts : part = "" ∨ part = "." ∨ part = ".." := by
    simpa [isName, imp_iff_or_not, or_comm, or_left_comm] using noName
  cases place with
  | around => simp [lookIn, parts]
  | inside base =>
    have before := reached base rfl
    rcases or_assoc.mpr parts with here | rfl
    · simpa [lookIn, follow, here] using before base List.prefix_rfl
    · by_cases top : base = []
      · simp [lookIn, follow, top]
      · simpa [lookIn, follow, top] using before base.dropLast (List.dropLast_prefix base)

theorem read_leads (reads : s.read path = .ok old) :
    ∃ names, s.Leads path names ∧ s.entry? names = some (.file old) := by
  obtain ⟨place, name, found, here⟩ := read_ok.mp reads
  have reached := reached_locate found
  cases place with
  | around =>
    simp only [lookIn] at here
    split at here <;> simp at here
  | inside base =>
    have isName : isName name = true := by
      by_contra noName
      simp [lookIn_noName reached noName] at here
    exact ⟨_, ⟨base, name, found, isName, rfl⟩, (lookIn_name isName).symm.trans here⟩

end Store

end LineRules

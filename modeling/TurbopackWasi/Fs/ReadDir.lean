import Mathlib.Data.List.Basic
import Mathlib.Tactic.ByContra

/-!
# TurbopackWasi.Fs.ReadDir

**Reading a directory**, before and after the patch. On wasi a directory handle belongs to the
thread that opened it, so the patch iterates it inside the blocking closure: the closure
collects the names and the types of all entries, and the filters, which drop the names that
are not Unicode and the denied one, come afterwards.

The type of an entry is now asked for before the filters. `patched` and `original` agree
unless an entry that is dropped has a type query that fails, in a directory that is fine
otherwise (`preserves_iff`).
-/

namespace TurbopackWasi.Fs

variable {ε α β : Type}

/-! ### Collecting -/

/-- `collect::<Result<Vec<_>, _>>()`: stops at the first error. -/
def collect : List (Except ε α) → Except ε (List α)
  | [] => .ok []
  | .error err :: _ => .error err
  | .ok x :: rs =>
      match collect rs with
      | .ok xs => .ok (x :: xs)
      | .error err => .error err

/-- The collection fails exactly if one of the results is an error. -/
theorem collect_fails {rs : List (Except ε α)} :
    (∃ err, collect rs = .error err) ↔ ∃ err, .error err ∈ rs := by
  induction rs with
  | nil => simp [collect]
  | cons r rs ih =>
      cases r with
      | error err => simp [collect]
      | ok x =>
          simp only [List.mem_cons, reduceCtorEq, false_or]
          rw [← ih]
          cases hrest : collect rs <;> simp [collect, hrest]

/-! ### Entries -/

/-- `std::fs::FileType`. -/
structure FileType where
  isFile : Bool
  isDir : Bool
  isSymlink : Bool
  deriving DecidableEq

inductive RawDirectoryEntry
  | file
  | directory
  | symlink
  | other
  deriving DecidableEq

def FileType.entry (t : FileType) : RawDirectoryEntry :=
  if t.isFile then .file
  else if t.isDir then .directory
  else if t.isSymlink then .symlink
  else .other

/-- `std::fs::DirEntry`; its name need not be Unicode, and its type need not be known. -/
structure DirEntry (ε : Type) where
  fileName : ByteArray
  fileType : Except ε FileType

/-- The name, unless it is not Unicode or denied. -/
def keep (denied : Option String) (name : ByteArray) : Option String :=
  match String.fromUTF8? name with
  | none => none
  | some fileName => if denied = some fileName then none else some fileName

/-! ### The pipelines -/

/-- The closure of `filter_map` that the patch replaces. -/
def originalEntry (denied : Option String) :
    Except ε (DirEntry ε) → Option (Except ε (String × RawDirectoryEntry))
  | .error err => some (.error err)
  | .ok e =>
      match keep denied e.fileName with
      | none => none
      | some fileName =>
          match e.fileType with
          | .ok t => some (.ok (fileName, t.entry))
          | .error err => some (.error err)

def original (denied : Option String) (readDir : List (Except ε (DirEntry ε))) :
    Except ε (List (String × RawDirectoryEntry)) :=
  collect (readDir.filterMap (originalEntry denied))

/-- What the blocking closure makes of one result. -/
def extractEntry (r : Except ε (DirEntry ε)) : Except ε (ByteArray × FileType) :=
  r.bind fun e => e.fileType.map fun t => (e.fileName, t)

def patchedEntry (denied : Option String) (e : ByteArray × FileType) :
    Option (Except ε (String × RawDirectoryEntry)) :=
  match keep denied e.1 with
  | none => none
  | some fileName => some (.ok (fileName, e.2.entry))

def patched (denied : Option String) (readDir : List (Except ε (DirEntry ε))) :
    Except ε (List (String × RawDirectoryEntry)) :=
  (collect (readDir.map extractEntry)).bind fun entries =>
    collect (entries.filterMap (patchedEntry denied))

/-! ### When they fail -/

variable {denied : Option String} {rs : List (Except ε (DirEntry ε))} {r : Except ε (DirEntry ε)}

/-- A read error, or an entry whose type query fails. -/
def broken : Except ε (DirEntry ε) → Bool
  | .error _ => true
  | .ok e => !e.fileType.isOk

/-- An entry that is filtered out. -/
def dropped (denied : Option String) : Except ε (DirEntry ε) → Bool
  | .error _ => false
  | .ok e => (keep denied e.fileName).isNone

theorem extractEntry_fails : (∃ err, extractEntry r = .error err) ↔ broken r = true := by
  cases r with
  | error err => simp [extractEntry, broken, Except.bind]
  | ok e =>
      cases ht : e.fileType <;>
        simp [extractEntry, broken, Except.bind, Except.map, ht, Except.isOk, Except.toBool]

theorem originalEntry_fails :
    (∃ err, originalEntry denied r = some (.error err)) ↔
      broken r = true ∧ dropped denied r = false := by
  cases r with
  | error err => simp [originalEntry, broken, dropped]
  | ok e =>
      cases hk : keep denied e.fileName with
      | none => simp [originalEntry, dropped, hk]
      | some fileName =>
          cases ht : e.fileType <;>
            simp [originalEntry, broken, dropped, hk, ht, Except.isOk, Except.toBool]

/-- After the closure nothing fails. -/
theorem collect_patchedEntry (entries : List (ByteArray × FileType)) :
    ∃ es, collect (entries.filterMap (@patchedEntry ε denied)) = .ok es := by
  cases hc : collect (entries.filterMap (@patchedEntry ε denied)) with
  | ok es => exact ⟨es, rfl⟩
  | error err =>
      obtain ⟨err', hmem⟩ := collect_fails.mp ⟨err, hc⟩
      obtain ⟨e, -, he⟩ := List.mem_filterMap.mp hmem
      rw [patchedEntry] at he
      split at he <;> cases he

/-- The patched code fails for every error, -/
theorem patched_fails :
    (∃ err, patched denied rs = .error err) ↔ ∃ r ∈ rs, broken r = true := by
  have hclosure : (∃ err, patched denied rs = .error err) ↔
      ∃ err, collect (rs.map extractEntry) = .error err := by
    cases hc : collect (rs.map extractEntry) with
    | error err => simp [patched, hc, Except.bind]
    | ok entries =>
        obtain ⟨es, hes⟩ := @collect_patchedEntry ε denied entries
        simp [patched, hc, Except.bind, hes]
  rw [hclosure, collect_fails]
  constructor
  · intro h
    obtain ⟨err, hmem⟩ := h
    obtain ⟨r, hr, herr⟩ := List.mem_map.mp hmem
    exact ⟨r, hr, extractEntry_fails.mp ⟨err, herr⟩⟩
  · intro h
    obtain ⟨r, hr, hbroken⟩ := h
    obtain ⟨err, herr⟩ := extractEntry_fails.mpr hbroken
    exact ⟨err, List.mem_map.mpr ⟨r, hr, herr⟩⟩

/-- the replaced code for those of the entries that it kept. -/
theorem original_fails :
    (∃ err, original denied rs = .error err) ↔
      ∃ r ∈ rs, broken r = true ∧ dropped denied r = false := by
  rw [original, collect_fails]
  constructor
  · intro h
    obtain ⟨err, hmem⟩ := h
    obtain ⟨r, hr, herr⟩ := List.mem_filterMap.mp hmem
    exact ⟨r, hr, originalEntry_fails.mp ⟨err, herr⟩⟩
  · intro h
    obtain ⟨r, hr, hbroken⟩ := h
    obtain ⟨err, herr⟩ := originalEntry_fails.mpr hbroken
    exact ⟨err, List.mem_filterMap.mpr ⟨r, hr, herr⟩⟩

/-- Where nothing fails, the closure passes every entry on, and the filters do the same. -/
theorem extract_eq_ok (denied : Option String) (h : ∀ r ∈ rs, broken r = false) :
    ∃ entries, collect (rs.map extractEntry) = .ok entries ∧
      entries.filterMap (patchedEntry denied) = rs.filterMap (originalEntry denied) := by
  induction rs with
  | nil => exact ⟨[], rfl, rfl⟩
  | cons r rs ih =>
      obtain ⟨entries, hentries, hsame⟩ := ih (fun r hr => h r (List.mem_cons_of_mem _ hr))
      have hr := h r List.mem_cons_self
      cases r with
      | error err => cases hr
      | ok e =>
          cases ht : e.fileType with
          | error err =>
              rw [broken, ht] at hr
              cases hr
          | ok t =>
              refine ⟨(e.fileName, t) :: entries, ?_, ?_⟩
              · simp [extractEntry, Except.bind, Except.map, ht, collect, hentries]
              · cases hk : keep denied e.fileName with
                | none => simp [patchedEntry, originalEntry, hk, hsame]
                | some fileName => simp [patchedEntry, originalEntry, hk, ht, hsame]

theorem patched_eq_original (h : ∀ r ∈ rs, broken r = false) :
    patched denied rs = original denied rs := by
  obtain ⟨entries, hentries, hsame⟩ := extract_eq_ok denied h
  rw [patched, hentries, Except.bind, hsame, original]

/-! ### When they agree -/

/-- The patch keeps the result of the read. -/
structure Preserves (denied : Option String) (rs : List (Except ε (DirEntry ε))) : Prop where
  entries : ∀ es, patched denied rs = .ok es ↔ original denied rs = .ok es
  fails : (∃ err, patched denied rs = .error err) ↔ ∃ err, original denied rs = .error err
  /-- The entries that are filtered out have no part in a failure. -/
  ignores : (∃ err, patched denied rs = .error err) ↔
    ∃ err, patched denied (rs.filter fun r => !dropped denied r) = .error err

/-- Without the entries that are filtered out, the patched code fails when the replaced code
does. -/
theorem patched_filter_fails :
    (∃ err, patched denied (rs.filter fun r => !dropped denied r) = .error err) ↔
      ∃ err, original denied rs = .error err := by
  rw [patched_fails, original_fails]
  constructor
  · intro h
    obtain ⟨r, hr, hbroken⟩ := h
    obtain ⟨hmem, hkept⟩ := List.mem_filter.mp hr
    exact ⟨r, hmem, hbroken, by simpa using hkept⟩
  · intro h
    obtain ⟨r, hr, hbroken, hkept⟩ := h
    exact ⟨r, List.mem_filter.mpr ⟨hr, by simpa using hkept⟩, hbroken⟩

/-- All depends on when they fail. -/
theorem preserves_of_fails (h : (∃ err, patched denied rs = .error err) ↔
    ∃ err, original denied rs = .error err) : Preserves denied rs where
  entries := by
    intro es
    by_cases hbroken : ∃ r ∈ rs, broken r = true
    · have hfails := (@patched_fails _ denied _).mpr hbroken
      obtain ⟨err', herr'⟩ := h.mp hfails
      obtain ⟨err, herr⟩ := hfails
      simp [herr, herr']
    · rw [patched_eq_original]
      intro r hr
      by_contra hr'
      exact hbroken ⟨r, hr, by simpa using hr'⟩
  fails := h
  ignores := by rw [h, patched_filter_fails]

/-- **The patch preserves the result** exactly if the read fails for another reason, or no
entry that is filtered out has a type query that fails. -/
theorem preserves_iff (denied : Option String) (rs : List (Except ε (DirEntry ε))) :
    Preserves denied rs ↔
      (∃ r ∈ rs, broken r = true ∧ dropped denied r = false) ∨
        ∀ r ∈ rs, dropped denied r = true → broken r = false := by
  constructor
  · intro h
    by_cases hother : ∃ r ∈ rs, broken r = true ∧ dropped denied r = false
    · exact .inl hother
    · refine .inr ?_
      intro r hr _
      by_contra hbroken
      have hfails := (@patched_fails _ denied _).mpr ⟨r, hr, by simpa using hbroken⟩
      exact hother (original_fails.mp (h.fails.mp hfails))
  · intro h
    refine preserves_of_fails ?_
    rw [patched_fails, original_fails]
    constructor
    · intro hfails
      obtain ⟨r, hr, hbroken⟩ := hfails
      rcases h with hother | hdropped
      · exact hother
      · refine ⟨r, hr, hbroken, ?_⟩
        by_contra hkept
        rw [hdropped r hr (by simpa using hkept)] at hbroken
        cases hbroken
    · intro hfails
      obtain ⟨r, hr, hbroken, -⟩ := hfails
      exact ⟨r, hr, hbroken⟩

/-- A directory with one good file, and an entry whose name is not Unicode and whose type
cannot be told. -/
def strayName : List (Except Unit (DirEntry Unit)) :=
  [.ok ⟨"a.js".toUTF8, .ok ⟨true, false, false⟩⟩, .ok ⟨⟨#[0xFF]⟩, .error ()⟩]

/-- The replaced code lists the file, the patched code fails. -/
theorem strayName_not_preserves : ¬Preserves none strayName := by
  intro h
  have hlisted : original none strayName = .ok [("a.js", .file)] := by decide +kernel
  have hfails : patched none strayName = .error () := by decide +kernel
  rw [← h.entries, hfails] at hlisted
  cases hlisted

end TurbopackWasi.Fs

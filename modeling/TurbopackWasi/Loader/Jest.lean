import Mathlib.Data.List.Basic
import TurbopackWasi.Loader.Hook

/-!
# TurbopackWasi.Loader.Jest

**The way round to the jest transformer.** The wrapper of `next/jest` rewrites the resolved
config: an entry that names the transformer of next names `jest-transformer.cjs` instead,
and carries the path of the transformer among its options. In the workers that file awaits
the initialisation, takes the path out of the options, and asks the transformer for what
jest would have asked it for.

Jest itself is a parameter (`Runner`), of which only this is used: it calls the
`createTransformer` that the module of an array entry offers, with the options of the entry.
`invisible_iff` says for which configs jest ends up with the same transformers, made from
the same options.
-/

namespace TurbopackWasi.Loader.Jest

open Hook

variable {α : Type}

/-! ### Configs -/

/-- A value among the options: a string or something else. -/
abbrev Value (α : Type) := String ⊕ α

/-- The options of a transformer, an object. -/
abbrev Options (α : Type) := List (String × Value α)

def pathKey : String := "__nextJtPath"

/-- An entry of `transform`. -/
inductive Entry (α : Type)
  /-- The path alone. -/
  | plain (path : String)
  /-- An array; its first element need not be a string, and its second need not be there. -/
  | array (path : Option String) (options : Option (Options α))

/-- The `transform` of a config, by its keys. -/
abbrev Config (α : Type) := List (String × Entry α)

/-- `WRAPPER` -/
def wrapperPath (dirname : String) : String := dirname ++ "/jest-transformer.cjs"

/-- `Object.assign({}, options, { __nextJtPath: path })` -/
def assign (options : Options α) (path : String) : Options α :=
  if options.any (fun o => o.1 = pathKey) then
    options.map fun o => if o.1 = pathKey then (pathKey, .inl path) else o
  else options ++ [(pathKey, .inl path)]

/-- `const { __nextJtPath, ...rest } = options` -/
def rest (options : Options α) : Options α := options.filter fun o => o.1 ≠ pathKey

/-- One round of the loop over `Object.keys(cfg.transform)`. -/
def rewriteEntry (dirname : String) : Entry α → Entry α
  | .array (some path) options =>
      if endsWith path jtSuffix then
        .array (some (wrapperPath dirname)) (some (assign (options.getD []) path))
      else .array (some path) options
  | e => e

def rewrite (dirname : String) (cfg : Config α) : Config α :=
  cfg.map fun e => (e.1, rewriteEntry dirname e.2)

/-! ### Transformers -/

/-- The string under `__nextJtPath`. -/
def path? (options : Options α) : Option String :=
  (options.find? fun o => o.1 = pathKey).bind fun o => o.2.getLeft?

/-- How jest comes from the entries of a config to its transformers `T`, over the modules `M`
that `require` finds. -/
structure Runner (α M T : Type) where
  /-- `createTransformer` of a module, if it is a function; its argument may be `undefined`, and
  it may throw. -/
  createTransformer : M → Option (Option (Options α) → Option T)
  /-- The module as it is, for a transformer. -/
  self : M → T
  /-- What is passed on for options that are not there. -/
  absent : Option (Options α)
  /-- The transformer for an entry; `none` if loading it throws. -/
  transformer : (String → Option M) → Entry α → Option T
  /-- What a module offers as `createTransformer` is called with the options of the entry. -/
  created : ∀ modules path options m create, modules path = some m →
    createTransformer m = some create →
      transformer modules (.array (some path) options) = create (options.or absent)
  missing : ∀ modules path options, modules path = none →
    transformer modules (.array (some path) options) = none

variable {M T : Type}

/-- `createTransformer` of `jest-transformer.cjs`; its `require` throws without a path. -/
def createTransformer (jest : Runner α M T) (modules : String → Option M)
    (options : Option (Options α)) : Option T := do
  let path ← path? (options.getD [])
  let t ← modules path
  match jest.createTransformer t with
  | some create => create (some (rest (options.getD [])))
  | none => some (jest.self t)

/-- `jest-transformer.cjs` is where the entries look for it, and next's transformer, if it is
found, offers `createTransformer`. -/
structure Installed (dirname : String) (jest : Runner α M T) (modules : String → Option M) :
    Prop where
  wrapper : ∃ w, modules (wrapperPath dirname) = some w ∧
    jest.createTransformer w = some (createTransformer jest modules)
  transformer : ∀ path t, endsWith path jtSuffix = true → modules path = some t →
    (jest.createTransformer t).isSome

/-! ### The round trip of the options -/

variable {dirname path : String} {options : Options α}

theorem rest_assign (options : Options α) (path : String) :
    rest (assign options path) = rest options := by
  unfold assign
  split
  · have hkey : ((fun o : String × Value α => decide (o.1 ≠ pathKey)) ∘ fun o =>
        if o.1 = pathKey then (pathKey, .inl path) else o) = fun o => decide (o.1 ≠ pathKey) := by
      funext o
      by_cases ho : o.1 = pathKey <;> simp [ho]
    unfold rest
    rw [List.filter_map, hkey]
    refine (List.map_congr_left fun o ho => ?_).trans (List.map_id _)
    have hne : o.1 ≠ pathKey := by simpa using (List.mem_filter.mp ho).2
    exact if_neg hne
  · simp [rest]

theorem rest_eq_self_iff : rest options = options ↔ ∀ o ∈ options, o.1 ≠ pathKey := by
  simp [rest, List.filter_eq_self]

theorem path_rest (options : Options α) : path? (rest options) = none := by
  have hnone : (rest options).find? (fun o => o.1 = pathKey) = none := by
    rw [List.find?_eq_none]
    exact fun o ho => by simpa using (List.mem_filter.mp ho).2
  rw [path?, hnone]
  rfl

/-- The path is found again, whatever options there were. -/
theorem path_assign (options : Options α) (path : String) :
    path? (assign options path) = some path := by
  unfold assign
  split
  · rename_i hany
    have hfind : ∀ options : Options α, options.any (fun o => o.1 = pathKey) = true →
        (options.map fun o => if o.1 = pathKey then (pathKey, .inl path) else o).find?
          (fun o => o.1 = pathKey) = some (pathKey, .inl path) := by
      intro options
      induction options with
      | nil => simp
      | cons o options ih =>
          intro h
          by_cases ho : o.1 = pathKey
          · simp [ho]
          · rw [List.map_cons, if_neg ho, List.find?_cons_of_neg (by simpa using ho)]
            exact ih (by simpa [ho] using h)
    rw [path?, hfind options hany]
    rfl
  · rename_i hany
    have hnone : options.find? (fun o => o.1 = pathKey) = none := by
      rw [List.find?_eq_none]
      exact fun o ho hkey => hany (List.any_eq_true.mpr ⟨o, ho, hkey⟩)
    rw [path?, List.find?_append, hnone]
    simp

/-- The wrapper is not taken for the transformer. -/
theorem wrapperPath_not_jt (dirname : String) : endsWith (wrapperPath dirname) jtSuffix = false := by
  rw [endsWith, decide_eq_false_iff_not]
  intro hjt
  have hcjs : ".cjs".toList <:+ (wrapperPath dirname).toList :=
    ⟨dirname.toList ++ "/jest-transformer".toList, by simp [wrapperPath]⟩
  have hboth := List.suffix_of_suffix_length_le hcjs hjt (by decide)
  revert hboth
  decide

/-- A config is rewritten once. -/
theorem rewrite_rewrite (dirname : String) (cfg : Config α) :
    rewrite dirname (rewrite dirname cfg) = rewrite dirname cfg := by
  unfold rewrite
  rw [List.map_map]
  refine List.map_congr_left fun e _ => ?_
  have hentry : rewriteEntry dirname (rewriteEntry dirname e.2) = rewriteEntry dirname e.2 := by
    cases he : e.2 with
    | plain path => rfl
    | array path options =>
        cases path with
        | none => rfl
        | some path =>
            by_cases hjt : endsWith path jtSuffix = true
            · simp [rewriteEntry, hjt, wrapperPath_not_jt]
            · simp [rewriteEntry, hjt]
  exact congrArg (e.1, ·) hentry

/-! ### The transformers -/

section Rewritten

variable {jest : Runner α M T} {modules : String → Option M}

/-- The transformer of next, through the wrapper, is made from the options without the path. -/
theorem transformer_rewritten (hjt : endsWith path jtSuffix = true)
    (hI : Installed dirname jest modules) (options : Option (Options α)) :
    jest.transformer modules (rewriteEntry dirname (.array (some path) options)) =
      jest.transformer modules (.array (some path) (some (rest (options.getD [])))) := by
  obtain ⟨w, hw, hwrapper⟩ := hI.wrapper
  rw [rewriteEntry, if_pos hjt, jest.created _ _ _ w _ hw hwrapper, Option.some_or,
    createTransformer, Option.getD_some, path_assign, rest_assign]
  cases hfound : modules path with
  | none =>
      rw [jest.missing _ _ _ hfound]
      simp [hfound]
  | some t =>
      obtain ⟨create, hcreate⟩ := Option.isSome_iff_exists.mp (hI.transformer path t hjt hfound)
      rw [jest.created _ _ _ t create hfound hcreate]
      simp [hfound, hcreate]

end Rewritten

/-- The options that reach next's transformer are the ones in the config. -/
def Keeps (e : Entry α) : Prop :=
  ∀ path options, e = .array (some path) options → endsWith path jtSuffix = true →
    ∃ given, options = some given ∧ ∀ o ∈ given, o.1 ≠ pathKey

/-! ### A jest that tells the options apart -/

/-- `createTransformer` of the wrapper, over transformers that are the options they were made
from. -/
def recorded (dirname : String) (options : Option (Options α)) : Option (Option (Options α)) :=
  (path? (options.getD [])).bind fun path =>
    if path = wrapperPath dirname then none else some (some (rest (options.getD [])))

/-- Of its modules `true` is the wrapper, and `false` any other. -/
def recorder (dirname : String) : Runner α Bool (Option (Options α)) where
  createTransformer m := some (if m then recorded dirname else some)
  self _ := none
  absent := none
  transformer modules e :=
    match e with
    | .array (some path) options =>
        (modules path).bind fun m => if m then recorded dirname options else some options
    | _ => none
  created := by
    intro modules path options m create hm hcreate
    obtain rfl := Option.some.inj hcreate
    cases m <;> simp [hm]
  missing := by
    intro modules path options hm
    simp [hm]

/-- The wrapper, and a module under every other path. -/
def recorderModules (dirname path : String) : Option Bool := some (path = wrapperPath dirname)

theorem installed_recorder (dirname : String) :
    Installed dirname (recorder dirname : Runner α Bool (Option (Options α)))
      (recorderModules dirname) where
  wrapper := by
    refine ⟨true, by simp [recorderModules], congrArg some ?_⟩
    funext options
    show recorded dirname options = createTransformer (recorder dirname) _ options
    rw [createTransformer, recorded]
    cases hpath : path? (options.getD []) with
    | none => rfl
    | some path =>
        by_cases hw : path = wrapperPath dirname
        · -- the wrapper asks itself, with no path left
          simp [hw, recorderModules, recorder, recorded, path_rest]
        · simp [hw, recorderModules, recorder]
  transformer _ _ _ _ := rfl

/-- **The rewriting is invisible**: however jest loads transformers, whatever the modules are,
and for every entry of the config, jest gets the transformer that it would have got without it.
That is so exactly if every entry for next's transformer has options, and none by the name
`__nextJtPath`. -/
theorem invisible_iff (dirname : String) (cfg : Config α) :
    (∀ (M T : Type) (jest : Runner α M T) (modules : String → Option M),
      Installed dirname jest modules → ∀ e ∈ cfg,
        jest.transformer modules (rewriteEntry dirname e.2) = jest.transformer modules e.2) ↔
      ∀ e ∈ cfg, Keeps e.2 := by
  constructor
  · intro h e he path options heq hjt
    have hI := installed_recorder (α := α) dirname
    have hsame := h _ _ (recorder dirname) (recorderModules dirname) hI e he
    have hne : path ≠ wrapperPath dirname := by
      rintro rfl
      simp [wrapperPath_not_jt] at hjt
    rw [heq, transformer_rewritten hjt hI] at hsame
    have hoptions : some (rest (options.getD [])) = options := by
      simpa [recorder, recorderModules, hne] using hsame
    cases options with
    | none => cases hoptions
    | some given => exact ⟨given, rfl, rest_eq_self_iff.mp (Option.some.inj hoptions)⟩
  · intro h M T jest modules hI e he
    cases heq : e.2 with
    | plain path => rfl
    | array path options =>
        cases path with
        | none => rfl
        | some path =>
            by_cases hjt : endsWith path jtSuffix = true
            · obtain ⟨given, rfl, hgiven⟩ := h e he path options heq hjt
              rw [transformer_rewritten hjt hI, Option.getD_some, rest_eq_self_iff.mpr hgiven]
            · simp only [rewriteEntry, if_neg hjt]

end TurbopackWasi.Loader.Jest

import Mathlib.Data.List.AList
import Mathlib.Data.List.Infix
import Mathlib.Logic.Function.Basic
import TurbopackWasi.Lib.Machine

/-!
# TurbopackWasi.Loader.Hook

**The `Module._load` of `auto.cjs`.** It hands on what the module system loads, except that
four modules of next get a wrapper: `swc/index.js` and `output/log.js` a `Proxy`, which
takes their place in the require cache, `jest/jest.js` a function in its place, and the
jest transformer a new `createTransformer` in the same object. The last may have been loaded
before the hook was there, and so a microtask goes through the cache once more.

A state is that of one module registry. Modules are evaluated in any order and nesting; in
between they give their exports properties, replace `module.exports`, and leave the cache.
`hooked` tells the hook from the module system without it.
-/

namespace TurbopackWasi.Loader.Hook

open Lib

/-! ### Names -/

def includes (s sub : String) : Bool := decide (sub.toList <:+: s.toList)

def endsWith (s suffix : String) : Bool := decide (suffix.toList <:+ s.toList)

def swcSuffix : String := "next/dist/build/swc/index.js"
def logSuffix : String := "next/dist/build/output/log.js"
def jtSuffix : String := "next/dist/build/swc/jest-transformer.js"
def nextJestSuffix : String := "next/dist/build/jest/jest.js"

/-! ### Exports -/

/-- Which properties of an object are functions, and whether it is one itself. -/
structure Shape where
  isFunction : Bool
  warn : Bool
  createTransformer : Bool
  loadBindings : Bool
  deriving DecidableEq

/-- The `{}` of a new module. -/
def Shape.empty : Shape := ⟨false, false, false, false⟩

/-- The value of a `module.exports`. -/
inductive Exports
  /-- Neither an object nor a function. -/
  | primitive
  /-- An object or function that a module has made. -/
  | own (id : Nat)
  | nextJest (target : Exports)
  | log (target : Exports)
  | swc (target : Exports)
  deriving DecidableEq

/-- What the value is without the wrappers. -/
def Exports.strip : Exports → Exports
  | .nextJest v | .log v | .swc v => v.strip
  | v => v

/-- How many wrappers it is in. -/
def Exports.depth : Exports → Nat
  | .nextJest v | .log v | .swc v => v.depth + 1
  | _ => 0

abbrev Filename := String

structure State where
  /-- `Module._cache`, the exports of each module. -/
  cache : AList fun _ : Filename => Exports
  shape : Nat → Shape
  /-- How often `createTransformer` of the object has been replaced. -/
  wraps : Nat → Nat
  /-- The objects made so far are those below. -/
  fresh : Nat
  /-- What callers of `require` have got, the last first. -/
  seen : List Exports

def State.init : State := ⟨∅, fun _ => .empty, fun _ => 0, 0, []⟩

/-- `typeof v === 'function'` -/
def State.isFunction (s : State) : Exports → Bool
  | .primitive => false
  | .own id => (s.shape id).isFunction
  | .nextJest _ => true
  | .log v | .swc v => s.isFunction v

/-- `typeof v.warn === 'function'`; the proxies answer for their target. -/
def State.warn (s : State) : Exports → Bool
  | .primitive | .nextJest _ => false
  | .own id => (s.shape id).warn
  | .log _ => true
  | .swc v => s.warn v

def State.createTransformer (s : State) : Exports → Bool
  | .primitive | .nextJest _ => false
  | .own id => (s.shape id).createTransformer
  | .log v | .swc v => s.createTransformer v

def State.loadBindings (s : State) : Exports → Bool
  | .primitive | .nextJest _ => false
  | .own id => (s.shape id).loadBindings
  | .log v => s.loadBindings v
  | .swc _ => true

/-- `v.__nextSwcWasiWrapped` -/
def State.wrapped (s : State) : Exports → Bool
  | .primitive => false
  | .own id => decide (0 < s.wraps id)
  | _ => true

/-! ### The hook -/

/-- `wrapJestTransformer` -/
def State.wrapJestTransformer (s : State) : Exports → State
  | .own id => { s with wraps := Function.update s.wraps id (s.wraps id + 1) }
  | _ => s

/-- `cached.exports = w`, if the module is in the cache. -/
def State.swap (s : State) (file : Filename) (w : Exports) : State :=
  if (s.cache.lookup file).isSome then { s with cache := s.cache.insert file w } else s

/-- What follows `origLoad`; `file` is what `_resolveFilename` finds, if it does. -/
def State.load (s : State) (request : Option String) (file : Option Filename) (v : Exports) :
    State × Exports :=
  match request with
  | none => (s, v)
  | some request =>
      if v = .primitive then (s, v)
      else if s.isFunction v && includes request "jest" && !s.wrapped v then
        match file with
        | none => (s, v)
        | some file =>
            if endsWith file nextJestSuffix then (s.swap file (.nextJest v), .nextJest v)
            else (s, v)
      else if includes request "log" && s.warn v && !s.wrapped v then
        match file with
        | none => (s, v)
        | some file =>
            if endsWith file logSuffix then (s.swap file (.log v), .log v) else (s, v)
      else if s.createTransformer v && !s.wrapped v then
        match file with
        | none => (s, v)
        | some file =>
            (if endsWith file jtSuffix then s.wrapJestTransformer v else s, v)
      else if !s.loadBindings v || s.wrapped v then (s, v)
      else
        match file with
        | none => (s, v)
        | some file =>
            if endsWith file swcSuffix then (s.swap file (.swc v), .swc v) else (s, v)

/-- One round of the loop over the cache, of the microtask. -/
def State.sweepModule (s : State) (file : Filename) (v : Exports) : State :=
  if endsWith file jtSuffix && s.createTransformer v && !s.wrapped v then
    s.wrapJestTransformer v
  else s

def State.sweep (s : State) : State :=
  s.cache.entries.foldl (fun s m => s.sweepModule m.1 m.2) s

/-! ### Steps -/

inductive Act
  /-- A module enters the cache, with new exports, to be evaluated. -/
  | begin (file : Filename)
  /-- The code of a module gives an object its properties. -/
  | define (id : Nat) (shape : Shape)
  /-- `module.exports = v`, of something that the code can have. -/
  | assign (file : Filename) (v : Exports)
  /-- The load of a module in the cache, evaluated or on its way, returns. -/
  | load (request : Option String) (file : Filename) (resolves : Bool)
  /-- The same of what is not in the cache. -/
  | loadUncached (request : Option String) (file : Filename) (v : Exports)
  | evict (file : Filename)
  | sweep

/-- The code of a module has the objects that were made, and what it was handed. -/
def State.Has (s : State) : Exports → Prop
  | .primitive => True
  | .own id => id < s.fresh
  | v => v ∈ s.seen

instance (s : State) (v : Exports) : Decidable (s.Has v) := by
  cases v <;> unfold State.Has <;> infer_instance

/-- A caller gets what `load` returns. -/
def State.hand (s : State) (hooked : Bool) (request : Option String) (file : Option Filename)
    (v : Exports) : State :=
  let (s, w) := if hooked then s.load request file v else (s, v)
  { s with seen := w :: s.seen }

def next (hooked : Bool) (s : State) : Act → Option State
  | .begin file =>
      some { s with
        cache := s.cache.insert file (.own s.fresh)
        shape := Function.update s.shape s.fresh .empty
        wraps := Function.update s.wraps s.fresh 0
        fresh := s.fresh + 1 }
  | .define id shape =>
      if id < s.fresh then some { s with shape := Function.update s.shape id shape } else none
  | .assign file v =>
      if (s.cache.lookup file).isSome ∧ s.Has v then
        some { s with cache := s.cache.insert file v }
      else none
  | .load request file resolves =>
      (s.cache.lookup file).map
        (s.hand hooked request (if resolves then some file else none))
  | .loadUncached request file v =>
      if s.cache.lookup file = none ∧ s.Has v then some (s.hand hooked request (some file) v)
      else none
  | .evict file => some { s with cache := s.cache.erase file }
  | .sweep => some (if hooked then s.sweep else s)

/-- The module system, with the hook or without. -/
def loader (hooked : Bool) : Machine State Act := ⟨(· = .init), next hooked⟩

end TurbopackWasi.Loader.Hook

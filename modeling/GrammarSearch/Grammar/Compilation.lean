import GrammarSearch.Grammar.Scoping
import GrammarSearch.Grammar.Source

/-!
# Grammars as rules

Compiling a grammar appends its rules to those of a builder. Every entry of a repository gets its
handle before any entry is compiled, so that entries can include each other. A rule with an include
stands for the rule included and nothing else in it counts, except that an entry of a repository
always has a rule of its own.

Compiling fails only where an include refers to nothing. By then rules have been appended, which
`Builder.addGrammar` drops again.
-/

namespace GrammarSearch

/-- Appends rules to those of a builder, or fails. What was appended before a failure stays. -/
abbrev Compilation (α : Type) := ExceptT Failure (StateM Builder) α

namespace Compilation

/-- The captures of a rule as written. A key that is no index and a group without a name have no
effect; of keys of one index the last counts. -/
def captures (source : Table CaptureSource) : Captures :=
  Captures.ofList <| source.filterMap fun (key, capture) =>
    match Text.signedIndex? key.toList, capture.name with
    | some group, some name => some (group, name)
    | _, _ => none

/-- Takes handles for some rules that are compiled later. -/
def reserve (count : Nat) : Compilation Nat :=
  modifyGet fun builder =>
    (builder.rules.size,
      { builder with rules := builder.rules ++ Array.replicate count ({} : Rule) })

/-- Puts a rule where a handle was taken for it. -/
def write (node : NodeId) (rule : Rule) : Compilation Unit :=
  modify fun builder =>
    { builder with rules := builder.rules.setIfInBounds node.index rule }

/-- The handles of a repository's entries, which are taken one after another. -/
def entryHandles (first : Nat) : Table RuleSource → Repository
  | [] => []
  | (name, _) :: entries => (name, ⟨first⟩) :: entryHandles (first + 1) entries

/-- A rule as written, with its children compiled. -/
def ruleOf (source : RuleSource) (children : List NodeId) : Rule where
  name := source.name
  contentName := source.contentName
  matchPattern := source.matchPattern.map Pattern.mk
  beginPattern := source.beginPattern.map Pattern.mk
  endSource := source.endPattern
  captures := captures source.captures
  beginCaptures :=
    captures (if source.beginCaptures.isEmpty then source.captures else source.beginCaptures)
  endCaptures :=
    captures (if source.endCaptures.isEmpty then source.captures else source.endCaptures)
  children := children

mutual

/-- Compiles a rule to the place taken for it. -/
def compileInto (scoping : Scoping) (node : NodeId) : RuleSource → Compilation Unit
  | ⟨name, contentName, matchPattern, beginPattern, endPattern, captures, beginCaptures,
      endCaptures, patterns, includes, repository⟩ => do
    match includes with
    | some target =>
      let child ← ofExcept (scoping.resolve target)
      write node { children := [child] }
    | none =>
      let first ← reserve repository.length
      let inside := scoping.within (entryHandles first repository)
      compileEntries inside first repository
      let children ← compileRules inside patterns
      write node <| ruleOf
        { name, contentName, matchPattern, beginPattern, endPattern, captures, beginCaptures,
          endCaptures } children

/-- Compiles the entries of a repository to the places taken for them. -/
def compileEntries (scoping : Scoping) : Nat → List (String × RuleSource) → Compilation Unit
  | _, [] => pure ()
  | next, (_, source) :: entries => do
    compileInto scoping ⟨next⟩ source
    compileEntries scoping (next + 1) entries

/-- Compiles rules; each gives the handle of its own rule, or of the rule that it includes. -/
def compileRules (scoping : Scoping) : List RuleSource → Compilation (List NodeId)
  | [] => pure []
  | source :: sources => do
    let node ←
      match source.includes with
      | some target => ofExcept (scoping.resolve target)
      | none => do
        let index ← reserve 1
        compileInto scoping ⟨index⟩ source
        pure ⟨index⟩
    let nodes ← compileRules scoping sources
    return node :: nodes

end

/-- Compiles injected rules under their selectors. -/
def compileInjections (scoping : Scoping) (sources : Table RuleSource) :
    Compilation (List Injection) := do
  let targets ← compileRules scoping (sources.map (·.2))
  return List.zipWith (fun (selector, _) target => ⟨selector, target⟩) sources targets

end Compilation

namespace Builder

/-- What the includes of a grammar refer to, whose root has the next handle and whose repository the
handles after it. -/
def scoping (builder : Builder) (source : GrammarSource) : Scoping where
  scopeName := source.scopeName
  root := ⟨builder.rules.size⟩
  roots := builder.roots
  repositories := builder.repositories
  own := Compilation.entryHandles (builder.rules.size + 1) source.repository

/-- The root rule of a grammar, after all its other rules. -/
def compileRoot (scoping : Scoping) (source : GrammarSource) : Compilation Rule := do
  let _ ← Compilation.reserve 1
  let first ← Compilation.reserve source.repository.length
  Compilation.compileEntries scoping first source.repository
  let children ← Compilation.compileRules scoping source.patterns
  let injections ← Compilation.compileInjections scoping source.injections
  return { name := some source.scopeName, children, injections }

/-- Injects a rule into the grammar with a scope name, at once or when that grammar is added. -/
def inject (injection : Injection) (builder : Builder) (target : String) : Builder :=
  match builder.roots.lookup target with
  | some root =>
    { builder with
      rules := builder.rules.modify root.index fun rule => rule.addInjection injection }
  | none => { builder with pending := builder.pending ++ [(target, injection)] }

/-- Gives a grammar's root the injections that waited for it. -/
def takePending (builder : Builder) (scopeName : String) (root : NodeId) : Builder :=
  let (ready, pending) := builder.pending.partition fun entry => entry.1 == scopeName
  { builder with
    rules := builder.rules.modify root.index fun rule =>
      { rule with injections := rule.injections ++ ready.map (·.2) }
    pending }

/-- The builder with its first rules only. -/
def truncate (builder : Builder) (count : Nat) : Builder :=
  { builder with rules := builder.rules.take count }

/-- The builder with a compiled grammar entered under its scope name, which may have been that of
another grammar before. -/
def enter (builder : Builder) (scoping : Scoping) (rule : Rule) : Builder where
  rules := builder.rules.setIfInBounds scoping.root.index rule
  roots := builder.roots.put scoping.scopeName scoping.root
  repositories := builder.repositories.put scoping.scopeName scoping.own
  pending := builder.pending

/-- Injects a grammar with the given root where it asks for. -/
def injectInto (builder : Builder) (source : GrammarSource) (root : NodeId) : Builder :=
  match source.injectionSelector with
  | some selector => source.injectTo.foldl (inject ⟨selector, root⟩) builder
  | none => builder

/-- Adds a grammar and gives its root. A grammar of the same scope name added before keeps its
rules, but the name now means the new one. If an include refers to nothing, the rules appended so
far are dropped. -/
def addGrammar (builder : Builder) (source : GrammarSource) : Except Failure NodeId × Builder :=
  let scoping := builder.scoping source
  match (compileRoot scoping source).run.run builder with
  | (.error failure, compiled) => (.error failure, compiled.truncate builder.rules.size)
  | (.ok rule, compiled) =>
    let injected := (compiled.enter scoping rule).injectInto source scoping.root
    (.ok scoping.root, injected.takePending source.scopeName scoping.root)

/-- Adds a grammar in the form in which it is handed over, if it can be read. -/
def add (builder : Builder) (form : GrammarForm) : Except Failure NodeId × Builder :=
  match form.read with
  | .ok source => builder.addGrammar source
  | .error failure => (.error failure, builder)

end Builder

end GrammarSearch

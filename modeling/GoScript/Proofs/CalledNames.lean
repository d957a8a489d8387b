import GoScript.Proofs.EmittedExpressions
import GoScript.Proofs.Visits
import Mathlib.Data.List.Forall2

/-!
# What a call is written as

The names of builtins are not reserved: a function, a parameter or a variable may have one of them.  The type of a call
comes from the scopes, hence from what the name is bound to.  The text of a call comes from its name alone, so a call of
something that has the name of a builtin can be written as if it were one of the builtin.

* `callText`, `WrittenAs` — a call of a name with the texts of its arguments
* `targets_eq_ok` — the texts of some expressions are the text of each of them
* `target_call`, `target_length` — the text of a call, and of one that becomes a member of its argument
* `call_writtenAs_iff` — when a call is written under its own name
* `call_of_bound_name` — a call of a name that is bound to something else than a builtin
-/

namespace GoScript

open Outcome

/-- The text of a call of a name. -/
def callText (name : String) (texts : List String) : String :=
  name ++ "(" ++ ",".intercalate texts ++ ")"

/-- The text is that of a call of a name with all of the arguments. -/
def WrittenAs (name : String) (arguments : List Node) (text : String) : Prop :=
  ∃ texts, List.Forall₂ (fun argument text => argument.target = .ok text) arguments texts ∧ text = callText name texts

/-! ### Texts -/

/-- Different names make different texts. -/
theorem callText_injective (texts : List String) : Function.Injective (callText · texts) := by
  intro name other h
  have hlist := congrArg String.toList h
  simp only [callText, String.toList_append, List.append_assoc] at hlist
  exact String.toList_injective (List.append_cancel_right hlist)

/-- A call is not a member of something. -/
theorem callText_ne_member (name : String) (texts : List String) (collection : String) :
    callText name texts ≠ collection ++ ".length" := by
  intro h
  have hlist : (name ++ "(" ++ ",".intercalate texts).toList ++ [')'] = (collection ++ ".lengt").toList ++ ['h'] := by
    simpa [callText] using congrArg String.toList h
  exact absurd (List.append_inj' hlist rfl).2 (by decide)

theorem targets_eq_ok {nodes : List Node} {texts : List String} :
    Node.targets nodes = .ok texts ↔ List.Forall₂ (fun node text => node.target = .ok text) nodes texts := by
  induction nodes generalizing texts with
  | nil =>
    rw [Node.targets, List.forall₂_nil_left_iff]
    exact ⟨fun h => (Except.ok.inj h).symm, fun h => congrArg Except.ok h.symm⟩
  | cons node rest ih =>
    rw [Node.targets]
    constructor
    · intro h
      obtain ⟨text, htext, h⟩ := ok_of_check h
      obtain ⟨others, hothers, h⟩ := ok_of_check h
      cases h
      exact .cons htext (ih.mp hothers)
    · rintro (_ | ⟨htext, hothers⟩)
      rw [htext, ih.mpr hothers]
      rfl

/-- If each of some expressions has a text, so have all of them together. -/
theorem exists_targets {nodes : List Node} (h : ∀ node ∈ nodes, ∃ text, node.target = .ok text) :
    ∃ texts, Node.targets nodes = .ok texts := by
  induction nodes with
  | nil => exact ⟨[], rfl⟩
  | cons node rest ih =>
    obtain ⟨text, htext⟩ := h node List.mem_cons_self
    obtain ⟨texts, htexts⟩ := ih fun other hother => h other (List.mem_cons_of_mem node hother)
    exact ⟨text :: texts, targets_eq_ok.mpr (.cons htext (targets_eq_ok.mp htexts))⟩

/-! ### Calls -/

section

variable {callee : String} {arguments : List Node} (span : Span)

/-- A call is written under the name that the emitted text has for it. -/
theorem target_call {texts : List String} (htexts : Node.targets arguments = .ok texts)
    (hlength : ¬ (callee = "len" ∧ arguments.length = 1)) :
    (Node.call callee arguments span).target = .ok (callText (consoleName callee) texts) := by
  rw [Node.target, htexts, ← target?_getD]
  dsimp only [bind, Except.bind]
  split
  · exact absurd ⟨rfl, rfl⟩ hlength
  · rfl

/-- The length of a collection is written as a member of it. -/
theorem target_length {collection : Node} {text : String} (htext : collection.target = .ok text) :
    (Node.call "len" [collection] span).target =
      .ok (parenthesize (collection.takesParens .call false) text ++ ".length") := by
  have htexts : Node.targets [collection] = .ok [text] := targets_eq_ok.mpr (.cons htext .nil)
  rw [Node.target, htexts]
  rfl

/-- A call that has a text has one for each argument. -/
theorem targets_of_call {span : Span} {text : String} (h : (Node.call callee arguments span).target = .ok text) :
    ∃ texts, Node.targets arguments = .ok texts := by
  rw [Node.target] at h
  obtain ⟨texts, htexts, _⟩ := ok_of_check h
  exact ⟨texts, htexts⟩

theorem consoleName_eq_self {name : String} : consoleName name = name ↔ name ≠ "fmt.Println" ∧ name ≠ "fmt.Print" := by
  rw [consoleName]
  split
  · next h => rcases h with rfl | rfl <;> decide
  · next h => simpa using h

/-- **When a call is written under its own name**: all its arguments have a text, the name is not that of a printing
function, and it is no length of a collection. -/
theorem call_writtenAs_iff :
    (∃ text, (Node.call callee arguments span).target = .ok text ∧ WrittenAs callee arguments text) ↔
      (∀ argument ∈ arguments, ∃ text, argument.target = .ok text) ∧ callee ≠ "fmt.Println" ∧ callee ≠ "fmt.Print" ∧
        ¬ (callee = "len" ∧ arguments.length = 1) := by
  constructor
  · rintro ⟨_, htarget, texts, htexts, rfl⟩
    rw [← targets_eq_ok] at htexts
    have hlength : ¬ (callee = "len" ∧ arguments.length = 1) := by
      rintro ⟨rfl, hone⟩
      obtain ⟨collection, rfl⟩ := List.length_eq_one_iff.mp hone
      obtain ⟨text, htext⟩ := targets_ok htexts collection List.mem_cons_self
      rw [target_length span htext] at htarget
      exact callText_ne_member _ _ _ (Except.ok.inj htarget).symm
    rw [target_call span htexts hlength] at htarget
    obtain ⟨hline, hprint⟩ := consoleName_eq_self.mp (callText_injective texts (Except.ok.inj htarget))
    exact ⟨targets_ok htexts, hline, hprint, hlength⟩
  · rintro ⟨harguments, hline, hprint, hlength⟩
    obtain ⟨texts, htexts⟩ := exists_targets harguments
    have htarget := target_call span htexts hlength
    rw [consoleName_eq_self.mpr ⟨hline, hprint⟩] at htarget
    exact ⟨_, htarget, texts, targets_eq_ok.mp htexts, rfl⟩

end

/-! ### Names that are bound -/

/-- What a name is bound to has that name. -/
theorem ScopeTree.name_of_lookup {scopes : ScopeTree} {name : String} {binding : Binding}
    (h : scopes.lookup name = some binding) : binding.name = name := by
  obtain ⟨scope, _, hfound⟩ := List.exists_of_findSome?_eq_some h
  simpa using List.find?_some hfound

/-- **A call of a bound name.**  Whatever the scopes are, if a name is bound in them and not to a builtin, then a call of
it has the type of what it is bound to.  It is written as a call of that if and only if all its arguments have a text,
the name is not `fmt.Println` or `fmt.Print`, and it is not `len` with one argument.  Wherever it is written in another
way, there is a builtin of the same name, and that is not what the name is bound to. -/
theorem call_of_bound_name {scopes : ScopeTree} {callee : String} {binding : Binding}
    (hlookup : scopes.lookup callee = some binding) (hkind : binding.kind ≠ .builtin) (arguments : List Node)
    (span : Span) :
    scopes.typeOf (.call callee arguments span) = .ok binding.type ∧
      ((∃ text, (Node.call callee arguments span).target = .ok text ∧ WrittenAs binding.name arguments text) ↔
        (∀ argument ∈ arguments, ∃ text, argument.target = .ok text) ∧ callee ≠ "fmt.Println" ∧
          callee ≠ "fmt.Print" ∧ ¬ (callee = "len" ∧ arguments.length = 1)) ∧
      ∀ text, (Node.call callee arguments span).target = .ok text → ¬ WrittenAs binding.name arguments text →
        ∃ builtin ∈ Builtin.table, builtin.name = callee ∧ builtin.binding ≠ binding := by
  have hname := ScopeTree.name_of_lookup hlookup
  have hother : ∀ builtin : Builtin, builtin.binding ≠ binding := by
    rintro builtin rfl
    exact hkind rfl
  refine ⟨?_, ?_, ?_⟩
  · rw [ScopeTree.typeOf.eq_def]
    show scopes.typeOfName callee span.start = _
    rw [ScopeTree.typeOfName, hlookup]
  · rw [hname]
    exact call_writtenAs_iff span
  · intro text htext hwritten
    rw [hname] at hwritten
    obtain ⟨texts, htexts⟩ := targets_of_call htext
    by_contra hnone
    have hnames : ∀ builtin ∈ Builtin.table, builtin.name ≠ callee := fun builtin hmem hsame =>
      hnone ⟨builtin, hmem, hsame, hother builtin⟩
    have hline : callee ≠ "fmt.Println" := fun h => hnames _ (.head _) h.symm
    have hprint : callee ≠ "fmt.Print" := fun h => hnames _ (.tail _ (.head _)) h.symm
    have hlength : callee ≠ "len" := fun h => hnames _ (.tail _ (.tail _ (.head _))) h.symm
    obtain ⟨text', htext', hwritten'⟩ :=
      (call_writtenAs_iff span).mpr ⟨targets_ok htexts, hline, hprint, fun h => hlength h.1⟩
    cases htext.symm.trans htext'
    exact hwritten hwritten'

/-- A function called `len` that is called with two arguments. -/
theorem call_of_bound_name_length :
    let scopes := ScopeTree.initial.declare ⟨"len", .string, .function⟩
    let call : Node := .call "len" [.integer 1 default, .integer 2 default] default
    scopes.lookup "len" = some ⟨"len", .string, .function⟩ ∧ scopes.typeOf call = .ok .string ∧
      ∃ text, call.target = .ok text ∧ WrittenAs "len" [.integer 1 default, .integer 2 default] text := by
  intro scopes call
  have hlookup : scopes.lookup "len" = some ⟨"len", .string, .function⟩ := by rfl
  obtain ⟨htype, hwritten, _⟩ := call_of_bound_name hlookup (by decide) [.integer 1 default, .integer 2 default] default
  refine ⟨hlookup, htype, hwritten.mpr ⟨?_, by decide, by decide, by decide⟩⟩
  intro argument hargument
  have hcases : argument = .integer 1 default ∨ argument = .integer 2 default := by simpa using hargument
  rcases hcases with rfl | rfl
  · exact ⟨_, rfl⟩
  · exact ⟨_, rfl⟩

/-- A function called `len` that is called with one argument: the call has the type of the function, and the text of a
length. -/
theorem call_of_shadowed_length : ∃ program after here argument span statement,
    parse "func len(x int) int \x7b return x \x7d\nlen(1)\n" "shell" = .ok program ∧
      emitInto program .empty {} = (.ok (), after) ∧
      after.contents = "function len(x: number): number \x7b\n\treturn x;\n\x7d\n1.length;\n".toUTF8 ∧
      (Emitter.atStart program .empty {}).ComesTo program.body here
        (.expression (.call "len" [argument] span) statement) ∧
      here.scopes.lookup "len" = some ⟨"len", .int, .function⟩ ∧
      (Node.call "len" [argument] span).target = .ok "1.length" ∧ ¬ WrittenAs "len" [argument] "1.length" := by
  refine ⟨_, _, _, _, _, _, by rfl, by rfl, by decide +kernel, ⟨_, [_], [], .self, by rfl⟩, by rfl, by rfl, ?_⟩
  rintro ⟨texts, _, htext⟩
  exact callText_ne_member "len" texts "1" htext.symm

end GoScript

import Mathlib.Data.List.Nodup
import Mathlib.Tactic.Choose
import GoScript.Proofs.LexicalScoping
import GoScript.Proofs.Lines

/-!
# The order of functions

In a program of functions only, every function is bound before anything is emitted.  To emit one of them binds its name
once more, to the same thing, so after each function the emitter sees what it saw at the start.  Each function therefore
has its own block of text, which depends on the set of all functions and not on where they stand.

* `Emitter.Like`, `Simulates.like` — emitters that see the same names and write to the same sink write the same text
* `globalFrame_perm` — the names that a program starts with do not depend on the order of its functions
* `Node.blockIn` — the block of text of a function of a program
* `emit_between`, `emitAll_between` — one function writes its block and changes nothing else, and so do several
* `emitInto_perm` — the order of functions matters to nothing but the order of their blocks
-/

namespace GoScript

open Lexical Outcome

/-! ### What an emission depends on -/

/-- Two emitters that see the same names at the same level, and write to the same sink. -/
structure Emitter.Like (first second : Emitter) : Prop where
  options : second.options = first.options
  level : second.level = first.level
  tables : second.scopes.tables = first.scopes.tables
  sink : second.sink = first.sink

/-- **An emission depends on what is seen.**  From two emitters alike it ends in the same way, after the same text. -/
theorem Simulates.like {emission : EmitM Unit} {reference : FrameEmission} (h : Simulates emission reference)
    {first second : Emitter} (hlike : first.Like second) :
    (∃ after after', emission first = .ok () after ∧ emission second = .ok () after' ∧ after.Like after') ∨
    ∃ error after after', emission first = .error error after ∧ emission second = .error error after' ∧
      after'.sink = after.sink := by
  obtain ⟨frame, outer, hshows⟩ := first.exists_shows
  have hfirst := (h first _ hshows).success_or_failure
  have hsecond := (h second _ (hlike.tables.trans hshows)).success_or_failure
  rw [hlike.options, hlike.level, hlike.sink] at hsecond
  obtain ⟨after, frames, hrun, hreference, hstays, hshown⟩ | ⟨error, after, hrun, hreference⟩ := hfirst
  · obtain ⟨after', frames', hrun', hreference', hstays', hshown'⟩ | ⟨error, after', _, hreference'⟩ := hsecond
    · rw [hreference] at hreference'
      injection hreference' with hframes hsink
      refine .inl ⟨after, after', hrun, hrun', ⟨?_, ?_, ?_, hsink.symm⟩⟩
      · rw [hstays.options, hstays'.options, hlike.options]
      · rw [hstays.level, hstays'.level, hlike.level]
      · rw [hshown, hshown', hframes]
    · rw [hreference] at hreference'
      cases hreference'
  · obtain ⟨after', frames', _, hreference', _⟩ | ⟨error', after', hrun', hreference'⟩ := hsecond
    · rw [hreference] at hreference'
      cases hreference'
    · rw [hreference] at hreference'
      injection hreference' with herror hsink
      exact .inr ⟨error, after, after', hrun, herror ▸ hrun', hsink.symm⟩

/-! ### The names that a program starts with -/

/-- If no name is bound twice, then what a name stands for is the one binding that it has. -/
theorem latest?_eq_some_iff {frame : Frame} (hdistinct : (frame.map Binding.name).Nodup) {name : String}
    {binding : Binding} : latest? frame name = some binding ↔ binding ∈ frame ∧ binding.name = name := by
  constructor
  · intro h
    exact ⟨List.mem_of_find?_eq_some h, by simpa using List.find?_some h⟩
  · rintro ⟨hmem, rfl⟩
    cases hfound : latest? frame binding.name with
    | none => exact absurd (beq_self_eq_true binding.name) (List.find?_eq_none.mp hfound binding hmem)
    | some other =>
      have hname : other.name = binding.name := by simpa using List.find?_some hfound
      exact congrArg some (List.inj_on_of_nodup_map hdistinct (List.mem_of_find?_eq_some hfound) hmem hname)

theorem names_functionBindings (body : List Node) :
    (functionBindings body).map Binding.name = body.filterMap Node.functionName? := by
  rw [functionBindings, List.map_filterMap]
  refine List.filterMap_congr fun node _ => ?_
  cases node with
  | function f =>
    show (f.name.map _).map Binding.name = f.name
    rw [Option.map_map]
    exact Option.map_id_apply
  | _ => rfl

/-- The functions of a program hide builtins of the same name. -/
theorem latest?_globalFrame (program : Program) (name : String) :
    latest? (globalFrame program) name = (latest? (functionBindings program.body).reverse name).or
      (latest? (Builtin.table.map Builtin.binding).reverse name) := by
  rw [globalFrame_eq, List.reverse_append]
  exact List.find?_append

section Distinct

variable {program program' : Program} (hdistinct : (program.body.filterMap Node.functionName?).Nodup)

include hdistinct

theorem nodup_functionBindings : ((functionBindings program.body).reverse.map Binding.name).Nodup := by
  rw [List.map_reverse, names_functionBindings]
  exact List.nodup_reverse.mpr hdistinct

/-- **Functions in another order** are the same names. -/
theorem globalFrame_perm (hperm : program'.body.Perm program.body) :
    latest? (globalFrame program') = latest? (globalFrame program) := by
  funext name
  have hdistinct' := (hperm.filterMap Node.functionName?).nodup_iff.mpr hdistinct
  have hfunctions : latest? (functionBindings program'.body).reverse name =
      latest? (functionBindings program.body).reverse name := by
    refine Option.ext fun binding => ?_
    rw [latest?_eq_some_iff (nodup_functionBindings hdistinct'), latest?_eq_some_iff (nodup_functionBindings hdistinct),
      List.mem_reverse, List.mem_reverse, functionBindings, functionBindings, (hperm.filterMap _).mem_iff]
  rw [latest?_globalFrame, latest?_globalFrame, hfunctions]

/-- To bind a function of a program once more changes nothing. -/
theorem latest?_rebind {f : Function} (hmem : Node.function f ∈ program.body) {name : String}
    (hname : f.name = some name) :
    latest? (⟨name, f.returnType, .function⟩ :: globalFrame program) = latest? (globalFrame program) := by
  have hbinding : ⟨name, f.returnType, .function⟩ ∈ functionBindings program.body :=
    List.mem_filterMap.mpr ⟨_, hmem, by simp [hname]⟩
  have hlatest : latest? (globalFrame program) name = some ⟨name, f.returnType, .function⟩ := by
    rw [latest?_globalFrame, (latest?_eq_some_iff (nodup_functionBindings hdistinct)).mpr
      ⟨List.mem_reverse.mpr hbinding, rfl⟩]
    rfl
  funext other
  by_cases hother : name = other
  · rw [← hother, hlatest]
    simp [latest?]
  · simp [latest?, hother]

end Distinct

/-! ### Blocks -/

/-- The block of text that a statement contributes to a program, or the error that it stops with: what is emitted of it
where all functions of the program are bound. -/
def Node.blockIn (program : Program) (options : Options) (node : Node) : Except Error String :=
  match node.emit (.atStart program .empty options) with
  | .ok _ after => .ok after.sink.text
  | .error error _ => .error error

/-- The blocks of a program of functions do not depend on their order. -/
theorem blockIn_perm {program program' : Program} (hdistinct : (program.body.filterMap Node.functionName?).Nodup)
    (hperm : program'.body.Perm program.body) (options : Options) (node : Node) :
    node.blockIn program' options = node.blockIn program options := by
  have hlike : (Emitter.atStart program' .empty options).Like (.atStart program .empty options) := by
    refine ⟨rfl, rfl, ?_, rfl⟩
    rw [Emitter.shows_atStart program, Emitter.shows_atStart program', List.map_singleton, List.map_singleton,
      globalFrame_perm hdistinct hperm]
  unfold Node.blockIn
  obtain ⟨after, after', hrun, hrun', hafter⟩ | ⟨error, after, after', hrun, hrun', _⟩ :=
    (emit_simulates node).like hlike
  · rw [hrun, hrun']
    exact congrArg (fun sink => Except.ok sink.text) hafter.sink.symm
  · rw [hrun, hrun']

/-- An emitter between two functions of a program: it sees the functions of the program, and its sink has no limit. -/
structure Emitter.Between (program : Program) (options : Options) (emitter : Emitter) : Prop where
  options : emitter.options = options
  level : emitter.level = 0
  shows : emitter.Shows [globalFrame program]
  limit : emitter.sink.limit = none

/-- What a statement writes is the same for every sink without a limit. -/
theorem emit_atStart (program : Program) (options : Options) (node : Node) {sink : Sink} (hlimit : sink.limit = none) :
    (∃ text later, node.blockIn program options = .ok text ∧
      node.emit (.atStart program sink options) = .ok () later ∧ later.sink = sink.write text) ∨
    ∃ error later, node.blockIn program options = .error error ∧
      node.emit (.atStart program sink options) = .error error later := by
  obtain ⟨indent, callMain⟩ := options
  have hplace : ∀ sink, Emitter.atStart program sink ⟨indent, callMain⟩ =
      .place (.atStart program) 0 callMain indent sink := fun _ => rfl
  obtain ⟨lines, outcome, scopes', hemits, -⟩ := emit_lays node (.atStart program) 0 callMain
  have hput := Sink.put_of_unlimited hlimit (lines.map (Line.render indent))
  have hempty := @Sink.put_of_unlimited .empty rfl (lines.map (Line.render indent))
  rw [Node.blockIn, hplace, hplace]
  cases outcome with
  | error error =>
    exact .inr ⟨error, _, by rw [hemits.of_fits hempty]; rfl, hemits.of_fits hput⟩
  | ok value =>
    have hrun := hemits.of_fits hempty
    have hlater := hemits.of_fits hput
    have htext : textOf (ByteArray.empty ++ (String.join (lines.map (Line.render indent))).toUTF8) =
        String.join (lines.map (Line.render indent)) := by
      rw [ByteArray.empty_append, textOf_toUTF8]
    refine .inl ⟨_, _, ?_, hlater, (Sink.write_of_unlimited hlimit _).symm⟩
    rw [hrun]
    exact congrArg Except.ok htext

section Distinct

variable {program : Program} {options : Options} (hdistinct : (program.body.filterMap Node.functionName?).Nodup)

include hdistinct

/-- After a function of the program the emitter sees what it saw before. -/
theorem shows_of_emit {emitter later : Emitter} (hshows : emitter.Shows [globalFrame program]) {node : Node}
    (hmem : node ∈ program.body) (hnamed : node.functionName?.isSome = true)
    (hrun : node.emit emitter = .ok () later) : emitter.Stays later ∧ later.Shows [globalFrame program] := by
  have hagree := (emit_simulates node emitter _ hshows).success_or_failure
  rw [hrun] at hagree
  obtain ⟨_, frames, hlater, hreference, hstays, hshown⟩ | ⟨error, _, hlater, _⟩ := hagree
  · cases hlater
    refine ⟨hstays, ?_⟩
    cases node with
    | function f =>
      obtain ⟨name, hname⟩ := Option.isSome_iff_exists.mp hnamed
      have hrebind := latest?_rebind hdistinct hmem hname
      obtain ⟨_, parameters, returns, ⟨body, _⟩, _⟩ := f
      cases hname
      -- the name is bound first, and what the body binds is forgotten
      obtain ⟨_, _, _, hreference⟩ := ok_of_bind hreference
      obtain ⟨_, _, _, hreference⟩ := ok_of_bind hreference
      obtain ⟨_, _, _, hreference⟩ := ok_of_bind hreference
      cases hreference
      exact hshown.trans (congrArg (fun table => [table]) hrebind)
    | _ => cases hnamed
  · cases hlater

/-- **A function between the others** writes its block, and then the emitter is between functions again; or it stops
with its own error. -/
theorem emit_between {emitter : Emitter} (h : emitter.Between program options) {node : Node}
    (hmem : node ∈ program.body) (hnamed : node.functionName?.isSome = true) :
    (∃ text later, node.blockIn program options = .ok text ∧ node.emit emitter = .ok () later ∧
      later.Between program options ∧ later.sink = emitter.sink.write text) ∨
    ∃ error later, node.blockIn program options = .error error ∧ node.emit emitter = .error error later := by
  have hlike : (Emitter.atStart program emitter.sink options).Like emitter := by
    refine ⟨h.options, h.level, ?_, rfl⟩
    rw [h.shows, Emitter.shows_atStart]
  have hstart := emit_atStart program options node h.limit
  obtain ⟨after, later, hrun, hlater, hafter⟩ | ⟨error, after, later, hrun, hlater, _⟩ :=
    (emit_simulates node).like hlike
  · obtain ⟨text, after', hblock, hrun', hsink⟩ | ⟨error, after', _, hrun'⟩ := hstart
    · rw [hrun] at hrun'
      cases hrun'
      obtain ⟨hstays, hshows⟩ := shows_of_emit hdistinct h.shows hmem hnamed hlater
      have hsink' : later.sink = emitter.sink.write text := hafter.sink.trans hsink
      have hlimit : later.sink.limit = none := by
        rw [hsink']
        exact h.limit
      exact .inl ⟨text, later, hblock, hlater,
        ⟨hstays.options.trans h.options, hstays.level.trans h.level, hshows, hlimit⟩, hsink'⟩
    · rw [hrun] at hrun'
      cases hrun'
  · obtain ⟨text, after', _, hrun', _⟩ | ⟨error', after', hblock, hrun'⟩ := hstart
    · rw [hrun] at hrun'
      cases hrun'
    · rw [hrun] at hrun'
      cases hrun'
      exact .inr ⟨error, later, hblock, hlater⟩

/-- **Functions one after the other** write their blocks one after the other. -/
theorem emitAll_between {emitter : Emitter} (h : emitter.Between program options) {nodes : List Node}
    (hmem : ∀ node ∈ nodes, node ∈ program.body) (hnamed : ∀ node ∈ nodes, node.functionName?.isSome = true)
    {block : Node → String} (hblock : ∀ node ∈ nodes, node.blockIn program options = .ok (block node)) :
    ∃ later, Node.emitAll nodes emitter = .ok () later ∧ later.Between program options ∧
      later.sink = emitter.sink.write (String.join (nodes.map block)) := by
  induction nodes generalizing emitter with
  | nil =>
    refine ⟨emitter, rfl, h, ?_⟩
    rw [Sink.write_of_unlimited h.limit]
    simp
  | cons node rest ih =>
    rw [List.forall_mem_cons] at hmem hnamed hblock
    obtain ⟨text, middle, htext, hfirst, hmiddle, hsink⟩ | ⟨error, _, herror, _⟩ :=
      emit_between hdistinct h hmem.1 hnamed.1
    · obtain ⟨later, hrest, hlater, hsink'⟩ := ih hmiddle hmem.2 hnamed.2 hblock.2
      refine ⟨later, (bind_of_ok hfirst).trans hrest, hlater, ?_⟩
      rw [hblock.1] at htext
      cases htext
      rw [hsink', hsink, Sink.write_write_of_unlimited h.limit, List.map_cons, String.join_cons]
    · rw [hblock.1] at herror
      cases herror

/-- Functions that are emitted to the end have their blocks. -/
theorem blockIn_of_emitAll {emitter later : Emitter} (h : emitter.Between program options) {nodes : List Node}
    (hmem : ∀ node ∈ nodes, node ∈ program.body) (hnamed : ∀ node ∈ nodes, node.functionName?.isSome = true)
    (hrun : Node.emitAll nodes emitter = .ok () later) :
    ∀ node ∈ nodes, ∃ text, node.blockIn program options = .ok text := by
  induction nodes generalizing emitter with
  | nil => exact List.forall_mem_nil _
  | cons node rest ih =>
    rw [List.forall_mem_cons] at hmem hnamed ⊢
    obtain ⟨_, _, hnode, hrest⟩ := ok_of_bind hrun
    obtain ⟨text, middle, htext, hfirst, hmiddle, _⟩ | ⟨error, _, _, hfirst⟩ :=
      emit_between hdistinct h hmem.1 hnamed.1
    · rw [hnode] at hfirst
      cases hfirst
      exact ⟨⟨text, htext⟩, ih hmiddle hmem.2 hnamed.2 hrest⟩
    · rw [hnode] at hfirst
      cases hfirst

end Distinct

/-! ### Programs -/

/-- The line that calls `main` at the end of a program, if it is asked for and there is such a function. -/
def mainCall (program : Program) (options : Options) : String :=
  if options.callMain = true ∧ some "main" ∈ program.body.map Node.functionName? then "main();\n" else ""

theorem mainCall_perm {program program' : Program} (hperm : program'.body.Perm program.body) (options : Options) :
    mainCall program' options = mainCall program options := by
  rw [mainCall, mainCall]
  simp only [(hperm.map Node.functionName?).mem_iff]

/-- What follows the functions of a program. -/
theorem ending_between {program : Program} {options : Options} {emitter : Emitter}
    (h : emitter.Between program options) : ∃ later, later.sink = emitter.sink.write (mainCall program options) ∧
      ending program emitter = EmitM.flush later := by
  have hcondition : (emitter.options.callMain && program.body.any (·.functionName? == some "main")) = true ↔
      options.callMain = true ∧ some "main" ∈ program.body.map Node.functionName? := by
    rw [h.options]
    simp [List.mem_map]
  have hending : ending program emitter =
      (if emitter.options.callMain && program.body.any (·.functionName? == some "main") then
        EmitM.putLine "main();" >>= fun _ => EmitM.flush else EmitM.flush : EmitM Unit) emitter := rfl
  rw [hending, mainCall]
  by_cases hcall : options.callMain = true ∧ some "main" ∈ program.body.map Node.functionName?
  · have haccepts : emitter.sink.accepts "main();\n" = true := by simp [Sink.accepts, Sink.room, h.limit]
    have hrender : Line.render emitter.options.indent ⟨emitter.level, "main();"⟩ = "main();\n" := by
      rw [h.level]
      rfl
    have hline : EmitM.putLine "main();" emitter =
        .ok () { emitter with sink := emitter.sink.write "main();\n" } := by
      rw [EmitM.putLine_sink, Emitter.wrote, hrender, if_pos haccepts]
    rw [if_pos hcall, if_pos (hcondition.mpr hcall), bind_of_ok hline]
    exact ⟨_, rfl, rfl⟩
  · rw [if_neg hcall, if_neg (mt hcondition.mp hcall)]
    refine ⟨emitter, ?_, rfl⟩
    rw [Sink.write_of_unlimited h.limit]
    simp

section Distinct

variable {program : Program} {options : Options} {sink : Sink}
  (hnamed : ∀ node ∈ program.body, node.functionName?.isSome = true)
  (hdistinct : (program.body.filterMap Node.functionName?).Nodup) (hlimit : sink.limit = none)

include hlimit in
theorem Emitter.between_atStart : (Emitter.atStart program sink options).Between program options :=
  ⟨rfl, rfl, Emitter.shows_atStart program sink options, hlimit⟩

include hnamed hdistinct hlimit

/-- **A program of functions is the blocks of its functions,** if all of them have one. -/
theorem emitInto_blocks {block : Node → String}
    (hblock : ∀ node ∈ program.body, node.blockIn program options = .ok (block node)) :
    emitInto program sink options =
      (sink.flushed, sink.write (String.join (program.body.map block) ++ mainCall program options)) := by
  obtain ⟨middle, hbody, hmiddle, hsink⟩ :=
    emitAll_between hdistinct (Emitter.between_atStart hlimit) (fun _ hmem => hmem) hnamed hblock
  obtain ⟨later, hlater, hending⟩ := ending_between hmiddle
  have hwritten : later.sink = sink.write (String.join (program.body.map block) ++ mainCall program options) := by
    rw [hlater, hsink]
    exact Sink.write_write_of_unlimited hlimit _ _
  have hrefuses : later.sink.refusesFlush = sink.refusesFlush := by
    rw [hwritten]
    rfl
  rw [emitInto, emitTo, emitProgram_run, bind_of_ok hbody, hending, EmitM.flush_sink, Sink.flushed, Sink.flushed,
    hrefuses]
  cases sink.refusesFlush
  all_goals exact Prod.ext rfl hwritten

/-- A program of functions is emitted to its end exactly if all of them have a block and the sink can be flushed. -/
theorem emitInto_eq_ok_iff : (emitInto program sink options).1 = .ok () ↔
    sink.refusesFlush = false ∧ ∀ node ∈ program.body, ∃ text, node.blockIn program options = .ok text := by
  constructor
  · intro hok
    have hblocks : ∀ node ∈ program.body, ∃ text, node.blockIn program options = .ok text := by
      rw [emitInto, emitTo, emitProgram_run] at hok
      split at hok
      · next hrun =>
        obtain ⟨_, _, hbody, _⟩ := ok_of_bind hrun
        exact blockIn_of_emitAll hdistinct (Emitter.between_atStart hlimit) (fun _ hmem => hmem) hnamed hbody
      · cases hok
    refine ⟨?_, hblocks⟩
    choose! block hblock using hblocks
    rw [emitInto_blocks hnamed hdistinct hlimit hblock, Sink.flushed] at hok
    cases hflush : sink.refusesFlush
    · rfl
    · rw [hflush] at hok
      cases hok
  · rintro ⟨hflush, hblocks⟩
    choose! block hblock using hblocks
    rw [emitInto_blocks hnamed hdistinct hlimit hblock, Sink.flushed, hflush]
    rfl

end Distinct

/-- **The order of functions does not matter.**  Take a program of functions with different names, and the same
functions in another order.  Into sinks without a limit, one of the two is emitted to its end if and only if the other
one is.  Then every function has a block of text, which is the same in both programs, and what is written is the blocks
in the order of the functions, followed by the call of `main` if that is asked for and there is one. -/
theorem emitInto_perm {program program' : Program} {options : Options} {sink sink' : Sink}
    (hnamed : ∀ node ∈ program.body, node.functionName?.isSome = true)
    (hdistinct : (program.body.filterMap Node.functionName?).Nodup) (hperm : program'.body.Perm program.body)
    (hlimit : sink.limit = none) (hlimit' : sink'.limit = none) (hflush : sink'.refusesFlush = sink.refusesFlush) :
    ((emitInto program' sink' options).1 = .ok () ↔ (emitInto program sink options).1 = .ok ()) ∧
      ((emitInto program sink options).1 = .ok () → ∃ block : Node → String,
        (∀ node ∈ program.body, node.blockIn program options = .ok (block node) ∧
          node.blockIn program' options = .ok (block node)) ∧
        (emitInto program sink options).2.contents =
          sink.contents ++ (String.join (program.body.map block) ++ mainCall program options).toUTF8 ∧
        (emitInto program' sink' options).2.contents =
          sink'.contents ++ (String.join (program'.body.map block) ++ mainCall program options).toUTF8) := by
  have hnamed' : ∀ node ∈ program'.body, node.functionName?.isSome = true :=
    fun node hmem => hnamed node (hperm.mem_iff.mp hmem)
  have hdistinct' := (hperm.filterMap Node.functionName?).nodup_iff.mpr hdistinct
  have hsame := blockIn_perm hdistinct hperm options
  constructor
  · rw [emitInto_eq_ok_iff hnamed' hdistinct' hlimit', emitInto_eq_ok_iff hnamed hdistinct hlimit, hflush]
    simp only [hsame, hperm.mem_iff]
  · intro hok
    have hblocks := ((emitInto_eq_ok_iff hnamed hdistinct hlimit).mp hok).2
    choose! block hblock using hblocks
    have hblock' : ∀ node ∈ program'.body, node.blockIn program' options = .ok (block node) :=
      fun node hmem => (hsame node).trans (hblock node (hperm.mem_iff.mp hmem))
    refine ⟨block, fun node hmem => ⟨hblock node hmem, (hsame node).trans (hblock node hmem)⟩, ?_, ?_⟩
    · rw [emitInto_blocks hnamed hdistinct hlimit hblock, Sink.write_of_unlimited hlimit]
    · rw [emitInto_blocks hnamed' hdistinct' hlimit' hblock', Sink.write_of_unlimited hlimit', mainCall_perm hperm]

/-- A function may be called above or below the place where it stands. -/
theorem emitInto_perm_caller :
    let caller : Node := .function ⟨some "main", [], none,
      ⟨[.declaration ⟨"x", false, none, none, some (.call "f" [] default), none, default⟩], default⟩, default⟩
    let callee : Node := .function ⟨some "f", [], some .int,
      ⟨[.returning (some (.integer 1 default)) default], default⟩, default⟩
    (emitInto ⟨[caller, callee], default⟩ .empty ⟨"  ", true⟩).1 = .ok () ∧
      ∃ first second : String,
        (emitInto ⟨[caller, callee], default⟩ .empty ⟨"  ", true⟩).2.contents =
          (first ++ second ++ "main();\n").toUTF8 ∧
        (emitInto ⟨[callee, caller], default⟩ .empty ⟨"  ", true⟩).2.contents =
          (second ++ first ++ "main();\n").toUTF8 := by
  intro caller callee
  have hok : (emitInto ⟨[caller, callee], default⟩ .empty ⟨"  ", true⟩).1 = .ok () := rfl
  obtain ⟨_, hblocks⟩ := @emitInto_perm ⟨[caller, callee], default⟩ ⟨[callee, caller], default⟩ ⟨"  ", true⟩
    .empty .empty
    (by simp [caller, callee, Node.functionName?]) (by decide) (.swap _ _ []) rfl rfl rfl
  obtain ⟨block, _, hfirst, hsecond⟩ := hblocks hok
  have hmain : mainCall ⟨[caller, callee], default⟩ ⟨"  ", true⟩ = "main();\n" := by decide
  rw [hmain] at hfirst hsecond
  exact ⟨hok, block caller, block callee, by simpa [Sink.empty] using hfirst, by simpa [Sink.empty] using hsecond⟩

end GoScript

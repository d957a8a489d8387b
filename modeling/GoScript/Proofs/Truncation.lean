import GoScript.Proofs.Lines

/-!
# Sinks that fill up

A program is written as a list of texts that does not depend on the sink.  A sink that can hold only so many bytes takes
these texts until it is full, and then nothing more is written.  So it ends up with the first bytes of what a sink
without a limit would hold, and unless everything fits, being full is the error that is reported, also where the
emission would have failed further on for a reason of its own.

* `Sink.write_of_limited`, `Sink.accepts_of_limited` — one text into a sink with a limit
* `Sink.put_of_limited` — texts one after the other into a sink with a limit
* `emitInto_limited` — a limit cuts off the end of what is written, and nothing else
-/

namespace GoScript

open Outcome

namespace Sink

variable {sink : Sink} {limit : Nat}

theorem extract_min_size (bytes : ByteArray) (limit : Nat) :
    bytes.extract 0 (min limit bytes.size) = bytes.extract 0 limit := by
  conv => rhs; rw [← ByteArray.extract_zero_size (b := bytes), ByteArray.extract_extract, Nat.zero_add, Nat.zero_add]

theorem extract_of_size_le {bytes : ByteArray} (h : bytes.size ≤ limit) : bytes.extract 0 limit = bytes := by
  rw [← extract_min_size, Nat.min_eq_right h, ByteArray.extract_zero_size]

/-- What stands behind the first `limit` bytes does not matter. -/
theorem extract_append_of_le_size {front back : ByteArray} (h : limit ≤ front.size) :
    (front ++ back).extract 0 limit = front.extract 0 limit := by
  rw [ByteArray.extract_append, Nat.zero_sub, Nat.sub_eq_zero_of_le h]
  simp

theorem write_of_limited (hlimit : sink.limit = some limit) (hsize : sink.contents.size ≤ limit) (text : String) :
    sink.write text = { sink with contents := (sink.contents ++ text.toUTF8).extract 0 limit } := by
  have hroom : sink.room text.utf8ByteSize = min (limit - sink.contents.size) text.toUTF8.size := by
    rw [room, hlimit, Nat.min_comm]
    rfl
  rw [write, hroom, extract_min_size, ByteArray.extract_append, extract_of_size_le hsize, Nat.zero_sub]

theorem accepts_of_limited (hlimit : sink.limit = some limit) (hsize : sink.contents.size ≤ limit) (text : String) :
    sink.accepts text = decide (sink.contents.size + text.utf8ByteSize ≤ limit) := by
  rw [accepts, room, hlimit, Bool.eq_iff_iff]
  simp only [beq_iff_eq, decide_eq_true_eq]
  omega

/-- **Texts into a sink with a limit.**  It holds the first bytes of all of them together, and they fit if no byte is
missing. -/
theorem put_of_limited (hlimit : sink.limit = some limit) (hsize : sink.contents.size ≤ limit) (texts : List String) :
    sink.put texts = (decide (sink.contents.size + (String.join texts).utf8ByteSize ≤ limit),
      { sink with contents := (sink.contents ++ (String.join texts).toUTF8).extract 0 limit }) := by
  induction texts generalizing sink with
  | nil => simp [put, hsize, extract_of_size_le hsize]
  | cons text rest ih =>
    have hsum : (sink.contents ++ text.toUTF8).size = sink.contents.size + text.utf8ByteSize := ByteArray.size_append
    have hjoin : (String.join (text :: rest)).toUTF8 = text.toUTF8 ++ (String.join rest).toUTF8 := by
      simp [String.join_cons]
    have htotal : (String.join (text :: rest)).utf8ByteSize =
        text.utf8ByteSize + (String.join rest).utf8ByteSize := by
      rw [String.join_cons, String.utf8ByteSize_append]
    rw [put, accepts_of_limited hlimit hsize, write_of_limited hlimit hsize, hjoin, htotal, ← ByteArray.append_assoc]
    by_cases hfits : sink.contents.size + text.utf8ByteSize ≤ limit
    · -- the text is written as a whole, and the others go on from there
      let written : Sink := { sink with contents := sink.contents ++ text.toUTF8 }
      have hrest := @ih written hlimit (hsum ▸ hfits)
      rw [if_pos (decide_eq_true hfits), extract_of_size_le (hsum ▸ hfits), hrest, hsum, Nat.add_assoc]
    · have hfull : ¬ sink.contents.size + (text.utf8ByteSize + (String.join rest).utf8ByteSize) ≤ limit := by omega
      have hlong : limit ≤ (sink.contents ++ text.toUTF8).size := by omega
      rw [if_neg (by simpa using hfits), decide_eq_false hfull, extract_append_of_le_size hlong]

end Sink

/-- **A full sink cuts off the end of the text, and nothing else.**  A sink that can hold `limit` bytes ends up with the
first bytes of what a sink without a limit ends up with.  If those are all of them, the result is the same; if not, it
is the error of the sink. -/
theorem emitInto_limited (program : Program) (options : Options) (contents : ByteArray) (limit : Nat)
    (h : contents.size ≤ limit) :
    let unlimited := emitInto program ⟨contents, none, false⟩ options
    let bytes := unlimited.2.contents
    emitInto program ⟨contents, some limit, false⟩ options =
      (if bytes.size ≤ limit then unlimited.1 else .error (.io "sink full"),
        ⟨bytes.extract 0 (min limit bytes.size), some limit, false⟩) := by
  obtain ⟨indent, callMain⟩ := options
  obtain ⟨lines, outcome, hemit, -⟩ := emitInto_put program callMain
  have hunlimited := hemit indent ⟨contents, none, false⟩ _ _ (Sink.put_of_unlimited rfl _)
  have hlimited := hemit indent ⟨contents, some limit, false⟩ _ _ (Sink.put_of_limited rfl h _)
  generalize lines.map (Line.render indent) = texts at hunlimited hlimited
  intro unlimited bytes
  have hbytes : bytes = contents ++ (String.join texts).toUTF8 := congrArg (·.2.contents) hunlimited
  have hsize : bytes.size = contents.size + (String.join texts).utf8ByteSize := hbytes ▸ ByteArray.size_append
  -- neither of the sinks refuses to be flushed, so the outcome stays what it is
  have hflush : ∀ bytes limit, (outcome >>= fun _ => Sink.flushed ⟨bytes, limit, false⟩) = outcome := by
    intro bytes limit
    cases outcome <;> rfl
  have hresult : unlimited.1 = outcome := (congrArg Prod.fst hunlimited).trans (hflush _ _)
  rw [hlimited, hresult, hflush, Sink.extract_min_size, hsize, ← hbytes]
  simp only [decide_eq_true_eq]

theorem emitInto_limited_return :
    emitInto ⟨[.returning none default, .block ⟨[], default⟩], default⟩ ⟨ByteArray.empty, some 4, false⟩ {} =
      (.error (.io "sink full"), ⟨"retu".toUTF8, some 4, false⟩) := by
  have hunlimited :
      emitInto ⟨[.returning none default, .block ⟨[], default⟩], default⟩ ⟨ByteArray.empty, none, false⟩ {} =
        (.error (Node.block ⟨[], default⟩).unsupported, ⟨"return;\n".toUTF8, none, false⟩) := by rfl
  have h := emitInto_limited ⟨[.returning none default, .block ⟨[], default⟩], default⟩ {} ByteArray.empty 4
    (by decide)
  rw [hunlimited] at h
  exact h

end GoScript

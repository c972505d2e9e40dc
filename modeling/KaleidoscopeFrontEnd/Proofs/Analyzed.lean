import KaleidoscopeFrontEnd.Proofs.Soundness
import KaleidoscopeFrontEnd.Proofs.Statements
import KaleidoscopeFrontEnd.Proofs.Streams

namespace KaleidoscopeFrontEnd

theorem Lexes.inner (lexes : Lexes file text w) : ∀ t ∈ w, t.isEnd = false := by
  obtain ⟨stop,drains⟩ := lexes
  exact fun t member => drains.inner (.ok t) (List.mem_map_of_mem member)

theorem Lexes.unique (lexes : Lexes file text w) (other : Lexes file text v) : w = v := by
  obtain ⟨stop,drains⟩ := lexes
  obtain ⟨last,again⟩ := other
  exact List.map_injective_iff.mpr (fun _ _ => Except.ok.inj) (drains.unique again).1

theorem Tiled.ends {file : String} (tiled : Tiled file source behind events stop) :
    stop = .endOfInput (some (place file source source.length)) := by
  induction tiled with
  | last final => rfl
  | event _ _ _ _ _ _ ih => exact ih

theorem Cursor.Drains.stop_place {file : String} (drains : (Cursor.start file source).Drains all stop) :
    stop = .endOfInput (some (place file source source.length)) := by
  obtain ⟨events,last,again,tiled⟩ := (start_stands file source).tiled
  obtain ⟨rfl,rfl⟩ := drains.unique again
  exact tiled.ends

theorem lexes_complete : (Lexing.ofText file text).complete = .ok all ↔
    ∃ w stop, (Cursor.start file text).Drains (w.map .ok) stop ∧ all = w ++ [stop] := by
  constructor
  · intro complete
    obtain ⟨stop,ending,rfl⟩ := map_ok.mp complete
    obtain ⟨all,last,drains⟩ := Cursor.drained file text
    obtain ⟨rfl,rfl⟩ := Lexing.drains_of drains ending
    exact ⟨_,last,drains,rfl⟩
  · rintro ⟨w,stop,drains,rfl⟩
    obtain ⟨same,ending⟩ := Lexing.of_drains drains
    rw [Lexing.complete,Lexing.ofText,ending,same]
    rfl

theorem analysis_complete (complete : (Lexing.ofText file text).complete = .ok all) : Analysis.ofText file text =
    (((TokenStream.ofTokens all).apply Program.read).1.mapError .syntactic).map fun items => ⟨all,items⟩ := by
  unfold Analysis.ofText
  rw [complete]
  rfl

theorem analysis_lexed (drains : (Cursor.start file text).Drains (w.map .ok) stop) : Analysis.ofText file text =
    (((Program.read w).result (TokenStream.ofTokens (w ++ [stop])).stop).mapError .syntactic).map fun items =>
      ⟨w ++ [stop],items⟩ := by
  have inner : ∀ t ∈ w, t.isEnd = false := Lexes.inner ⟨stop,drains⟩
  rw [analysis_complete (lexes_complete.mpr ⟨w,stop,drains,rfl⟩),TokenStream.apply_exact,TokenStream.of_tokens_unread,
    content_append_end w drains.ended,content_self inner]

-- A text is turned into items exactly if it lexes and its tokens are read to their end.
theorem analysis_exact : Analysis.ofText file text = .ok a ↔ ∃ w stop,
    (Cursor.start file text).Drains (w.map .ok) stop ∧ a.tokens = w ++ [stop] ∧ Program.read w = .accepted a.items [] := by
  constructor
  · intro analyzed
    cases complete : (Lexing.ofText file text).complete with
    | error fault => rw [Analysis.ofText,complete] at analyzed; cases analyzed
    | ok all =>
        obtain ⟨w,stop,drains,rfl⟩ := lexes_complete.mp complete
        rw [analysis_lexed drains] at analyzed
        cases reply : Program.read w with
        | refused | exhausted => rw [reply] at analyzed; cases analyzed
        | accepted items rest =>
            rw [reply] at analyzed
            cases analyzed
            obtain ⟨rfl,_⟩ := Program.read_derives reply
            exact ⟨w,stop,drains,rfl,reply⟩
  · rintro ⟨w,stop,drains,tokens,reply⟩
    rw [analysis_lexed drains,reply,← tokens]
    rfl

theorem analysis_read (analyzed : Analysis.ofText file text = .ok a) :
    Lexes file text (content a.tokens) ∧ Program.read (content a.tokens) = .accepted a.items [] := by
  obtain ⟨w,stop,drains,tokens,read⟩ := analysis_exact.mp analyzed
  have lexes : Lexes file text w := ⟨stop,drains⟩
  rw [tokens,content_append_end w drains.ended,content_self lexes.inner]
  exact ⟨lexes,read⟩

end KaleidoscopeFrontEnd

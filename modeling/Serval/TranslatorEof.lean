import Serval.TranslatorWorker

/-! # The end of a stream in the translator

`work_translate` returns what its last write has returned. An end of file that was read after data is forgotten where
the data is written at once.
-/
namespace TranslatorEof

open TranslatorCopy TranslatorWorker Option

variable {c c' : Client} {d : Side} {k : Kernel} {status : WorkStatus} {l l' : Loop}

/-! ## One pass -/

/-- How many bytes come before the answer that ends the reading. -/
def bytesRead : List FromSock → ℕ
  | .data bytes :: ks => bytes.length + bytesRead ks
  | _ => 0

/-- How many bytes are taken before an answer that takes none. -/
def bytesTaken : List ToSock → ℕ
  | .wrote n :: ks => n + bytesTaken ks
  | _ => 0

theorem sockToPipeLoop_fills {ks : List FromSock} (h : sockToPipeLoop d ks c = some (c', status)) :
    (c'.sock d).pipe.length = (c.sock d).pipe.length + bytesRead ks := by
  induction ks generalizing c with
  | nil => cases h
  | cons k ks ih =>
    cases k with
    | data bytes =>
      rw [sockToPipeLoop, ite_none_right_eq_some] at h
      rw [ih h.2, fill, modify_self, List.length_append, bytesRead, add_assoc]
    | eof | reset =>
      cases h
      simp [socketClose, bytesRead]
    | wouldBlock | error =>
      cases h
      rfl

theorem sockToPipe_fills {readable : Bool} {ks : List FromSock} (h : sockToPipe c d readable ks = some (c', status)) :
    c' = c ∨ bytesRead ks ≤ (c'.sock d).pipe.length := by
  rw [sockToPipe] at h
  split at h
  · cases h
    exact .inl rfl
  · split at h
    · exact .inr (sockToPipeLoop_fills h ▸ Nat.le_add_left ..)
    · cases h
      exact .inl rfl

theorem pipeToSockLoop_takes {ks : List ToSock} (hc : ∀ e, Copied c e) (h : pipeToSockLoop d ks c = some (c', .ok)) :
    (c.sock d).pipe.length ≤ bytesTaken ks := by
  induction ks generalizing c with
  | nil =>
    rw [pipeToSockLoop, ite_none_left_eq_some, (hc d).pos_iff, not_not] at h
    simp [h.1]
  | cons k ks ih =>
    rw [pipeToSockLoop.eq_def] at h
    dsimp only at h
    split at h
    next hfilled =>
      cases k with
      | wrote n =>
        rw [ite_none_right_eq_some] at h
        have hrest := ih (drain_copied hc h.1.2) h.2
        simp only [drain, modify_self, modify_other_self, List.length_drop] at hrest
        rw [bytesTaken]
        omega
      | zero | wouldBlock | epipe | error => cases h
    next hempty =>
      rw [(hc d).pos_iff, not_not] at hempty
      simp [hempty]

theorem pipeToSock_takes {ks : List ToSock} (hc : ∀ e, Copied c e) (h : pipeToSock c d ks = some (c', .ok)) :
    (c.sock d).pipe.length ≤ bytesTaken ks := by
  rw [pipeToSock] at h
  split at h
  · cases h
  · split at h
    · cases h
    · exact pipeToSockLoop_takes hc h

/-- Where the end of the stream is read after data, the writes of the same pass do not take all of it. -/
def Cut (k : Kernel) : Prop := endsAfterData k.input = true → bytesTaken k.second < bytesRead k.input

instance (k : Kernel) : Decidable (Cut k) := inferInstanceAs (Decidable (_ → _))

theorem readAndFlush_heeds (h : readAndFlush c d k = some (c', status)) (hs : Settled c) (hc : ∀ e, Copied c e)
    (hempty : ¬ 0 < (c.sock d).bytesInPipe) (hlive : status = .ok ∨ status = .wouldBlock) (hcut : Cut k)
    (hclosed : (c'.sock d).state = .closed) : 0 < (c'.sock d).bytesInPipe := by
  obtain ⟨c₁, st, hread, hrest⟩ := readAndFlush_cases h
  obtain ⟨hspliced, -, -, hcloses⟩ := sockToPipe_spec hread
  rcases hrest with ⟨hflush, hfilled⟩ | ⟨rfl, hmasked, -⟩
  · obtain ⟨c₂, hrun, hmasked⟩ := flush_cases hflush
    obtain ⟨-, -, hstate, hleft⟩ := pipeToSock_spec hrun
    rw [(hmasked.sock d).1]
    rcases hlive with rfl | rfl
    · -- everything is written, and the pass goes on as if nothing had ended
      rw [(hmasked.sock d).2, hstate (by decide)] at hclosed
      obtain ⟨rfl, hends | hsame⟩ := hcloses hclosed
      · rcases sockToPipe_fills hread with rfl | hread
        · exact absurd (hfilled rfl) hempty
        · exact absurd (hread.trans (pipeToSock_takes (hspliced.copied hc) hrun)) (not_le.mpr (hcut hends))
      · exact absurd (hsame ▸ hfilled rfl) hempty
    · exact (hleft (hs.kept hspliced.kept)).2 rfl
  · rw [(hmasked.sock d).2] at hclosed
    obtain ⟨rfl, -⟩ := hcloses hclosed
    rcases hlive with hst | hst <;> cases hst

theorem readAndFlush_other (h : readAndFlush c d k = some (c', status)) (hst : status ≠ .close) :
    (c'.sock d.other).state = (c.sock d.other).state := by
  obtain ⟨c₁, st, hread, ⟨hflush, -⟩ | ⟨rfl, hmasked, -⟩⟩ := readAndFlush_cases h
  · obtain ⟨c₂, hrun, hmasked⟩ := flush_cases hflush
    rw [(hmasked.sock _).2, (pipeToSock_spec hrun).2.2.1 hst, (sockToPipe_spec hread).2.1]
  · rw [(hmasked.sock _).2, (sockToPipe_spec hread).2.1]

/-! ## The worker -/

/-- A socket that has ended still has bytes to be written, or the client is garbage. -/
def Heeded (c : Client) : Prop := c.isGarbage = false → ∀ e, (c.sock e).state = .closed → (c.sock e).pipe ≠ []

theorem workTranslate_heeds (h : workTranslate c d k = some (c', status)) (hs : Settled c) (hc : ∀ e, Copied c e)
    (hheeded : Heeded c) (hlive : status = .ok ∨ status = .wouldBlock) (hcut : Cut k) : Heeded c' := by
  have hst : status ≠ .close := by rcases hlive with rfl | rfl <;> decide
  obtain ⟨hspliced, -⟩ := workTranslate_spec h
  -- the end of the stream that is copied, and that the other socket is what it was
  have hpass : ((c'.sock d).state = .closed → 0 < (c'.sock d).bytesInPipe) ∧
      (c'.sock d.other).state = (c.sock d.other).state := by
    rcases workTranslate_cases h with ⟨hempty, hread⟩ | ⟨c₁, st, hrun, hrest⟩
    · exact ⟨readAndFlush_heeds hread hs hc hempty hlive hcut, readAndFlush_other hread hst⟩
    · obtain ⟨hspliced₁, -, hstate, hleft⟩ := pipeToSock_spec hrun
      rcases hrest with ⟨rfl, hread⟩ | ⟨rfl, hne, hmasked⟩
      · rw [readAndFlush_other hread hst]
        exact ⟨readAndFlush_heeds hread (hs.kept hspliced₁.kept) (hspliced₁.copied hc) ((hleft hs).1 rfl) hlive hcut,
          hstate (by decide) _⟩
      · rw [(hmasked.sock d.other).2, (hmasked.sock d).1]
        exact ⟨fun _ => (hleft hs).2 (hlive.resolve_left hne), hstate hst _⟩
  intro hgarbage e hclosed
  rcases d.eq_or e with rfl | rfl
  · rw [← (hspliced.copied hc e).pos_iff]
    exact hpass.1 hclosed
  · rw [hspliced.reverse]
    exact hheeded (hspliced.kept.isGarbage ▸ hgarbage) _ (hpass.2 ▸ hclosed)

theorem Heeded.of_view (h : Heeded c) (hview : view c' = view c) : Heeded c' := by
  intro hlive e hclosed
  rw [traffic_of_view hview]
  exact h ((Prod.mk.inj (Prod.mk.inj hview).2).1 ▸ hlive) e (state_of_view hview e ▸ hclosed)

/-- The answers of the kernel in every pass. -/
def heeds : Move → Bool
  | .work a => Cut a.kernel
  | _ => true

inductive Schedule (ok : Move → Bool) : Loop → Prop where
  | start (fromFamily : Side) : Schedule ok (start fromFamily)
  | step {l l' : Loop} (m : Move) : Schedule ok l → ok m = true → step l m = some l' → Schedule ok l'

theorem Schedule.inv {ok : Move → Bool} (h : Schedule ok l) : Inv l := by
  induction h with
  | start fromFamily => exact start_inv fromFamily
  | step m _ _ hstep ih => exact step_inv ih hstep

theorem finish_heeded (h : status = .ok ∨ status = .wouldBlock → Heeded c) : Heeded (finish l c status).c := by
  cases status with
  | error | close | exit => exact fun hlive => nomatch hlive
  | ok => exact h (.inl rfl)
  | wouldBlock => exact h (.inr rfl)

theorem connected_heeded (h : Heeded c) : Heeded (connected c c.fromFamily.other) := by
  intro hgarbage e
  rcases c.fromFamily.eq_or e with rfl | rfl
  · simpa [connected] using h hgarbage c.fromFamily
  · simp [connected]

theorem connecting_heeded (h : Heeded c) {f : Socket → Socket} (hf : ∀ s, (f s).state = .connecting) :
    Heeded (c.modify d f) := by
  intro hgarbage e
  rcases d.eq_or e with rfl | rfl
  · simp [hf]
  · simpa using h hgarbage d.other

theorem runWork_heeded {a : Answers} {w : Work} {ws : List Work} (hinv : Inv l) (hwork : l.c.work = w :: ws)
    (h : Heeded l.c) (hcut : Cut a.kernel) (hrun : runWork { l.c with work := ws } a w = some (c', status))
    (hlive : status = .ok ∨ status = .wouldBlock) : Heeded c' := by
  have hself : Heeded { l.c with work := ws } := h
  cases w with
  | connect =>
    have hc : clientConnect _ a.connect = _ := some.inj hrun
    cases ha : a.connect <;> rw [ha] at hc <;> cases hc
    · rcases hlive with hst | hst <;> cases hst
    · exact connected_heeded hself
    · exact connecting_heeded hself fun _ => rfl
    · rcases hlive with hst | hst <;> cases hst
  | connectResult =>
    have hc : clientConnectResult _ a.result = _ := some.inj hrun
    cases ha : a.result <;> rw [ha] at hc <;> cases hc
    · rcases hlive with hst | hst <;> cases hst
    · exact connected_heeded hself
    · exact hself
    · rcases hlive with hst | hst <;> cases hst
  | translate d =>
    have hsettled : Settled l.c := by
      rcases hinv.phase with he | hl
      · exact absurd (hwork ▸ List.mem_cons_self) (he.work d)
      · exact hl.settled
    exact workTranslate_heeds hrun hsettled (copied_of_traffic hinv.copied fun _ => rfl) hself hlive hcut
  | close =>
    cases hrun
    rcases hlive with hst | hst <;> cases hst

theorem step_heeded {m : Move} (hinv : Inv l) (h : Heeded l.c) (hok : heeds m = true) (hstep : step l m = some l') :
    Heeded l'.c := by
  cases m with
  | wait events =>
    simp only [step, ite_none_right_eq_some] at hstep
    cases hstep.2
    exact h
  | take =>
    simp only [step] at hstep
    split at hstep
    · cases hstep
      rw [take]
      split
      · exact h
      · exact h.of_view (view_checkSocketEvents ..)
    · cases hstep
  | work a =>
    simp only [step] at hstep
    split at hstep
    next hwork =>
      obtain ⟨⟨c', status⟩, hrun, rfl⟩ := map_eq_some_iff.mp hstep
      exact finish_heeded (runWork_heeded hinv hwork h (of_decide_eq_true hok) hrun)
    · cases hstep
  | rearm =>
    simp only [step] at hstep
    split at hstep
    · cases hstep
      exact h
    · cases hstep

theorem Schedule.heeded (h : Schedule heeds l) : Heeded l.c := by
  induction h with
  | start fromFamily =>
    intro _ e
    by_cases he : e = fromFamily <;> simp [TranslatorWorker.start, clientCreate, he]
  | step m hl hok hstep ih => exact step_heeded hl.inv ih hok hstep

/-- A client is garbage as soon as the stream of one of its sockets has ended and nothing of it is left to be written,
and its other socket is closed with it. -/
theorem end_heeded (h : Schedule heeds l) (hend : (l.c.sock d).state = .closed) (hempty : (l.c.sock d).pipe = []) :
    l.c.isGarbage = true ∧ ∀ e, ((clientClose l.c).sock e).state = .closed := by
  refine ⟨Bool.not_eq_false _ ▸ fun hlive => h.heeded hlive d hend hempty, fun e => ?_⟩
  exact ((clientClose_spec l.c).2.2 e).2.1

theorem schedule_of_run {ok : Move → Bool} (moves : List Move) (h : Schedule ok l)
    (hrun : moves.foldlM (fun l m => if ok m then step l m else none) l = some l') : Schedule ok l' := by
  induction moves generalizing l with
  | nil =>
    cases hrun
    exact h
  | cons m moves ih =>
    rw [List.foldlM_cons] at hrun
    obtain ⟨l₁, hl₁, hrest⟩ := bind_eq_some_iff.mp hrun
    rw [ite_none_right_eq_some] at hl₁
    exact ih (.step m h hl₁.1 hl₁.2) hrest

namespace Sample

open TranslatorWorker.Sample

def closed (input : List FromSock) (second : List ToSock) : List Move :=
  connecting ++ event .inet ⟨true, true, false⟩ [answers [] input second]

def delayed : List Move := blocked ++ event .serval writable [answers [.wrote 3] [] []]

end Sample

open Sample in
/-- The end of the stream is read after three bytes that cannot be written, and heeded when they are. -/
theorem end_heeded_delayed : ∃ l, delayed.foldlM (fun l m => if heeds m then step l m else none)
    (start .inet) = some l ∧
    l.c.isGarbage = true :=
  ⟨_, rfl, (end_heeded (d := .inet) (schedule_of_run delayed (.start .inet) rfl) rfl rfl).1⟩

open Sample TranslatorWorker.Sample in
/-- Three bytes and the end of the stream are read in one pass, and the bytes are written at once. -/
theorem end_forgotten :
    ((run (closed [.data [1, 2, 3], .eof] [.wrote 3] ++ [.rearm])).map fun l => (l.busy, l.c.work, l.c.isGarbage)) =
        some (false, [], false) ∧
      ((run (closed [.data [1, 2, 3], .eof] [.wrote 3] ++ [.rearm])).map fun l =>
        ((l.c.sock .inet).state, (l.c.sock .inet).pipe, (l.c.sock .serval).state)) =
        some (.closed, [], .connected) := by
  decide +kernel

end TranslatorEof

import Doctest.Proofs.Outline.FaultLimit

/-! The reading of a file, turn by turn. In each turn the innermost block that is open takes tokens or ends, so
the reading ends, and unless too many faults were met it has come to the end of the file. -/
namespace Doctest.Outline

/-- A reading between two turns: what has been read, the comments before the next item, and the tokens that are
left. -/
structure Reader where
  cursor : Cursor
  doc : Option DocRun
  left : List Token

namespace Reader

variable (file : Option Path) (source : String)

def step (r : Reader) (marks : List Mark) : Reader :=
  { r with cursor := marks.foldl (Cursor.step file) r.cursor }

/-- The innermost block ends, and the reading if there is none. -/
def close (r : Reader) : Turn Reader Reader :=
  if r.cursor.frames = [] then .done r else .again { r.step file [.leave] with doc := none }

/-- Goes on from `next`, or ends the block if too many faults have been met. -/
def resume (r next : Reader) : Turn Reader Reader :=
  if r.cursor.faults.length < Mark.maxFaults then .again next else r.close file

/-- The end of the file, where a block that is open is not closed. -/
def finish (r : Reader) (span : Span) : Turn Reader Reader :=
  if r.cursor.frames = [] then .done r else (r.step file [.fault ⟨.unclosedBody, span⟩]).close file

/-- A closing brace, which has been taken away. -/
def pastBrace (r : Reader) (span : Span) : Turn Reader Reader :=
  if r.cursor.frames = [] then
    let faulty := r.step file [.fault ⟨.unmatchedBrace, span⟩]
    faulty.resume file faulty
  else r.close file

/-- An item, of which the header has been taken away. -/
def pastHeader (r : Reader) (header : Header) : Turn Reader Reader :=
  let next := { r.step file (Mark.ofHeader r.doc header) with doc := none }
  if header.isFault then next.resume file { next with left := skipItem 0 r.left } else .again next

/-- One turn of the innermost block that is open. -/
def turn (r : Reader) : Turn Reader Reader :=
  match r.left with
  | [] => r.finish file ⟨0, 0⟩
  | t :: ts =>
    match t.kind with
    | .eof => r.finish file t.span
    | .closing .brace => { r with left := ts }.pastBrace file t.span
    | .outerDoc text =>
      let run := DocRun.extend r.doc ((LineMap.ofString source).lineOf t.span.start) text
      .again { r with doc := some run, left := ts }
    | .innerDoc text =>
      let lines := LineMap.ofString source
      let (run, rest) := Mark.innerDocs lines (some (DocRun.start (lines.lineOf t.span.start) text)) ts
      .again ({ r with left := rest }.step file (run.toList.map .doc))
    | .symbol .pound => .again { r with left := skipAttribute ts }
    | _ =>
      let (header, rest) := Header.read source (t :: ts)
      { r with left := rest }.pastHeader file header

/-- The marks of the tokens that are left. -/
def marks (r : Reader) : List Mark :=
  Mark.ofTokens source (.ofString source) r.cursor.frames.length r.doc r.cursor.faults.length r.left

/-- What the reading makes of the tokens that are left. -/
def outcome (r : Reader) : Cursor :=
  (r.marks source).foldl (Cursor.step file) r.cursor

/-- A turn that takes a token away, one that leaves a block, or the last one. A reading that ends has come to the
end of the file, or met too many faults. -/
inductive Moves (r : Reader) : Turn Reader Reader → Prop
  | advances {r' : Reader} : Advances r.left r'.left →
    r'.cursor.frames.length ≤ r.cursor.frames.length + 1 →
    r.outcome file source = r'.outcome file source → Moves r (.again r')
  | returns {r' : Reader} : r'.left = r.left → r.cursor.frames ≠ [] →
    r'.cursor.frames = r.cursor.frames.tail →
    r.outcome file source = r'.outcome file source → Moves r (.again r')
  | done {r' : Reader} : Consumes r.left r'.left →
    (r'.cursor.faults.length < Mark.maxFaults → kindOf r'.left = .eof) →
    r.outcome file source = r'.cursor → Moves r (.done r')

variable {file source} {r r' : Reader} {t : Token} {ts : List Token}

/-- It is the same whether some marks are left or have been read. -/
theorem outcome_eq (front : List Mark) (hcursor : r'.cursor = front.foldl (Cursor.step file) r.cursor)
    (hmarks : r.marks source = front ++ r'.marks source) :
    r.outcome file source = r'.outcome file source := by
  unfold outcome
  rw [hmarks, List.foldl_append, hcursor]

theorem length_frames_tail (h : r.cursor.frames ≠ []) :
    r.cursor.frames.length = r.cursor.frames.tail.length + 1 := by
  have hpos := List.length_pos_of_ne_nil h
  rw [List.length_tail]
  omega

/-- A block that is not closed ends with a fault. -/
theorem moves_finish (file : Option Path) (source : String) (hleft : kindOf r.left = .eof) :
    r.Moves file source (r.finish file (Header.spanOf r.left)) := by
  have hmarks (depth faults : Nat) (doc : Option DocRun) :
      Mark.ofTokens source (.ofString source) depth doc faults r.left =
        Mark.unclosed (Header.spanOf r.left) depth := by
    rw [Mark.ofTokens.eq_def]
    cases hts : r.left with
    | nil => rfl
    | cons t ts =>
      rw [hts] at hleft
      exact dif_pos hleft
  unfold finish
  split
  · next hframes =>
    refine .done (.refl _) (fun _ => hleft) ?_
    rw [outcome, marks, hmarks, hframes]
    rfl
  · next hframes =>
    let fault : Mark := .fault ⟨.unclosedBody, Header.spanOf r.left⟩
    have hopen : (r.step file [fault]).cursor.frames ≠ [] := hframes
    rw [close, if_neg hopen]
    refine .returns rfl hframes rfl (outcome_eq [fault, .leave] rfl ?_)
    rw [marks, hmarks, length_frames_tail hframes]
    exact congrArg ([fault, .leave] ++ ·) (hmarks _ _ _).symm

/-- A block ends with a token that has been taken away. -/
theorem moves_close (front : List Mark) (hadvances : Advances r.left r'.left)
    (hcursor : r'.cursor = front.foldl (Cursor.step file) r.cursor)
    (hframes : r'.cursor.frames = r.cursor.frames)
    (hnil : r.cursor.frames = [] → Mark.maxFaults ≤ r'.cursor.faults.length ∧ r.marks source = front)
    (hmarks : r.cursor.frames ≠ [] → r.marks source = front ++ .leave :: Mark.ofTokens source
      (.ofString source) r.cursor.frames.tail.length none r'.cursor.faults.length r'.left) :
    r.Moves file source (r'.close file) := by
  unfold close
  split
  · next hopen =>
    obtain ⟨hmax, hfront⟩ := hnil (hframes.symm.trans hopen)
    refine .done hadvances.consumes (fun hlt => absurd hlt (Nat.not_lt.mpr hmax)) ?_
    rw [outcome, hfront, hcursor]
  · next hopen =>
    rw [hframes] at hopen
    have htail : (r'.step file [.leave]).cursor.frames = r.cursor.frames.tail :=
      congrArg List.tail hframes
    refine .advances hadvances ?_ (outcome_eq (front ++ [.leave]) ?_ ?_)
    · dsimp only
      rw [htail, List.length_tail]
      omega
    · simp [step, hcursor]
    · rw [hmarks hopen, marks]
      dsimp only
      rw [htail, List.append_assoc]
      rfl

/-- After a fault the reading goes on, or its innermost block ends. -/
theorem moves_resume {next : Reader} (front : List Mark) (faults : Nat) (hadvances : Advances r.left r'.left)
    (hcursor : r'.cursor = front.foldl (Cursor.step file) r.cursor)
    (hframes : r'.cursor.frames = r.cursor.frames) (hfaults : r'.cursor.faults.length = faults)
    (hnext : next.cursor = r'.cursor) (hleft : Consumes r'.left next.left)
    (hmarks : r.marks source = front ++
      if faults < Mark.maxFaults then next.marks source
      else match r.cursor.frames.length with
        | depth + 1 => .leave :: Mark.ofTokens source (.ofString source) depth none faults r'.left
        | 0 => []) : r.Moves file source (r'.resume file next) := by
  subst hfaults
  unfold resume
  split
  · next hlt =>
    rw [if_pos hlt] at hmarks
    refine .advances ?_ ?_ (outcome_eq front (hnext.trans hcursor) hmarks)
    · exact hadvances.trans hleft
    · rw [hnext, hframes]
      exact Nat.le_succ _
  · next hle =>
    rw [if_neg hle] at hmarks
    refine moves_close front hadvances hcursor hframes (fun hnil => ?_) (fun hopen => ?_)
    · refine ⟨Nat.not_lt.mp hle, ?_⟩
      rw [hmarks, hnil]
      exact List.append_nil front
    · rw [hmarks, length_frames_tail hopen]

/-- A closing brace ends the block, or is a fault where no block is open. -/
theorem moves_pastBrace (hleft : r.left = t :: ts) (ht : t.kind = .closing .brace) :
    r.Moves file source ({ r with left := ts }.pastBrace file t.span) := by
  have hadvances : Advances r.left ts := hleft ▸ (Consumes.refl ts).advances (by simp [ht])
  unfold pastBrace
  split
  · next hframes =>
    have hnone : r.cursor.frames = [] := hframes
    refine moves_resume [.fault ⟨.unmatchedBrace, t.span⟩] (r.cursor.faults.length + 1) hadvances rfl rfl
      List.length_append rfl (.refl _) ?_
    rw [marks, hleft, hnone, List.length_nil, ← Event.marks_ofTokens, Event.ofTokens_unmatched _ _ _ ht,
      Event.marks]
    split
    · rw [Event.marks_ofTokens]
      simp [marks, step, Cursor.step, hnone]
    · rfl
  · next hframes =>
    refine moves_close [] hadvances rfl rfl (fun hnil => absurd hnil hframes) (fun _ => ?_)
    rw [marks, hleft, length_frames_tail hframes, ← Event.marks_ofTokens, Event.ofTokens_closing _ _ _ _ ht,
      Event.marks, Event.marks_ofTokens]
    rfl

theorem frames_ofHeader (file : Option Path) (doc : Option DocRun) (header : Header) (c : Cursor) :
    ((Mark.ofHeader doc header).foldl (Cursor.step file) c).frames =
      match header with
      | .body kind name => ⟨c.outline.size, kind, name⟩ :: c.frames
      | _ => c.frames := by
  cases header with
  | body kind name => exact Cursor.frames_step_enter _ _ _ _ _
  | _ => simp [Mark.ofHeader, Cursor.step]

theorem faults_ofHeader (file : Option Path) (doc : Option DocRun) (header : Header) (c : Cursor) :
    ((Mark.ofHeader doc header).foldl (Cursor.step file) c).faults.length =
      c.faults.length + header.isFault.toNat := by
  have hcount : ((Mark.ofHeader doc header).filterMap Mark.fault?).length = header.isFault.toNat := by
    cases header <;> rfl
  rw [Cursor.faults_foldl, List.length_append, hcount]

/-- An item is read, or it is faulty and passed over. -/
theorem moves_pastHeader {header : Header} {rest : List Token} (hleft : r.left = t :: ts)
    (ht : t.kind.startsItem) (hread : Header.read source (t :: ts) = (header, rest)) :
    r.Moves file source ({ r with left := rest }.pastHeader file header) := by
  have hadvances : Advances r.left rest := by
    have hadvances := Header.advances_read source ts
      (Token.Kind.ne_of_startsItem ht rfl) (Token.Kind.ne_of_startsItem ht rfl)
    rwa [hread, ← hleft] at hadvances
  have hmarks : r.marks source = Mark.ofHeader r.doc header ++
      Mark.following source (.ofString source) r.cursor.frames.length r.cursor.faults.length rest header := by
    rw [marks, hleft, Mark.ofTokens_item _ _ _ _ _ ht hread]
  have hframes := frames_ofHeader file r.doc header r.cursor
  have hfaults := faults_ofHeader file r.doc header r.cursor
  unfold pastHeader
  dsimp only
  split
  · next hfault =>
    have hsame : ((Mark.ofHeader r.doc header).foldl (Cursor.step file) r.cursor).frames = r.cursor.frames := by
      cases header <;> first | exact hframes | simp [Header.isFault] at hfault
    rw [hfault] at hfaults
    refine moves_resume (Mark.ofHeader r.doc header) (r.cursor.faults.length + 1) hadvances rfl hsame hfaults rfl
      (Loop.consumes_skipItem 0 rest) ?_
    have hnext : Reader.marks source
        ⟨(Mark.ofHeader r.doc header).foldl (Cursor.step file) r.cursor, none, skipItem 0 rest⟩ =
          Mark.ofTokens source (.ofString source) r.cursor.frames.length none (r.cursor.faults.length + 1)
            (skipItem 0 rest) := by
      rw [marks, hsame, hfaults]
      rfl
    dsimp only [step]
    rw [hmarks, hnext]
    cases header <;> first | rfl | simp [Header.isFault] at hfault
  · next hfault =>
    refine .advances hadvances ?_ (outcome_eq (Mark.ofHeader r.doc header) rfl ?_)
    · dsimp only [step]
      rw [hframes]
      cases header <;> simp
    · rw [hmarks, marks]
      dsimp only [step]
      rw [hframes, hfaults]
      cases header <;> first | rfl | simp [Header.isFault] at hfault

/-- Comments on what encloses them document it, or the file. -/
theorem moves_innerDocs {text : String} {run : Option DocRun} {rest : List Token} (hleft : r.left = t :: ts)
    (ht : t.kind = .innerDoc text)
    (hrun : Mark.innerDocs (.ofString source)
      (some (.start ((LineMap.ofString source).lineOf t.span.start) text)) ts = (run, rest)) :
    r.Moves file source (.again ({ r with left := rest }.step file (run.toList.map .doc))) := by
  have hframes : ((run.toList.map Mark.doc).foldl (Cursor.step file) r.cursor).frames = r.cursor.frames := by
    cases run with
    | none => rfl
    | some run => exact Cursor.frames_attach r.cursor r.cursor.here file (some run)
  have hfaults : ((run.toList.map Mark.doc).foldl (Cursor.step file) r.cursor).faults = r.cursor.faults := by
    cases run with
    | none => rfl
    | some run => exact Cursor.faults_attach r.cursor r.cursor.here file (some run)
  refine .advances ?_ ?_ (outcome_eq (run.toList.map .doc) rfl ?_)
  · have hrest := (Loop.sound_innerDocs (.ofString source)
      (some (.start ((LineMap.ofString source).lineOf t.span.start) text))).consumes 0 ts
    dsimp only [Loop.innerDocs] at hrest
    rw [hrun] at hrest
    exact hleft ▸ hrest.advances (by simp [ht])
  · exact Nat.le_succ_of_le (Nat.le_of_eq (congrArg List.length hframes))
  · rw [marks, hleft, marks]
    dsimp only [step]
    rw [hframes, hfaults, Mark.ofTokens.eq_def]
    simp [ht, hrun]

/-- **A turn takes a token away, or leaves a block, or is the last one.** -/
theorem moves_turn (file : Option Path) (source : String) (r : Reader) : r.Moves file source (r.turn file source) := by
  unfold turn
  split
  · next hleft =>
    have hfinish := moves_finish (r := r) file source (by rw [hleft]; rfl)
    rwa [hleft] at hfinish
  · next t ts hleft =>
    have next {us : List Token} (ht : t.kind ≠ .eof) (h : Consumes ts us) : Advances r.left us :=
      hleft ▸ h.advances ht
    split
    · next ht =>
      have hfinish := moves_finish (r := r) file source (by rw [hleft]; exact ht)
      rwa [hleft] at hfinish
    · next ht => exact moves_pastBrace hleft ht
    · next text ht =>
      refine .advances (next (by simp [ht]) (.refl ts)) (Nat.le_succ _) (outcome_eq [] rfl ?_)
      rw [marks, hleft, Mark.ofTokens.eq_def]
      simp [ht, marks]
    · next text ht => exact moves_innerDocs hleft ht rfl
    · next ht =>
      refine .advances (next (by simp [ht]) (consumes_skipAttribute ts)) (Nat.le_succ _) (outcome_eq [] rfl ?_)
      rw [marks, hleft, Mark.ofTokens.eq_def]
      simp [ht, marks]
    · have ht : t.kind.startsItem := by
        have hcases := Event.kind_cases t
        simp_all
      exact moves_pastHeader hleft ht rfl

/-- The turns of a reading come to an end, since a turn opens a block only if it takes a token. -/
theorem exists_ends (file : Option Path) (source : String) (r : Reader) : ∃ n ≤ 2 * r.left.length + r.cursor.frames.length + 1, ∃ r' : Reader,
    Turn.Ends (turn file source) n r r' ∧ Consumes r.left r'.left ∧
      (r'.cursor.faults.length < Mark.maxFaults → kindOf r'.left = .eof) ∧
      r.outcome file source = r'.cursor := by
  refine Turn.exists_ends
    (fun (r r' : Reader) => Consumes r.left r'.left ∧
      (r'.cursor.faults.length < Mark.maxFaults → kindOf r'.left = .eof) ∧ r.outcome file source = r'.cursor)
    (fun r => 2 * r.left.length + r.cursor.frames.length) ?_ ?_ r
  · intro r r' hturn
    have hmoves := moves_turn file source r
    rw [hturn] at hmoves
    cases hmoves with
    | advances hleft hframes houtcome =>
      have hlength := hleft.length_lt
      refine ⟨by omega, fun last ⟨hconsumes, heof, hlast⟩ => ?_⟩
      exact ⟨hleft.consumes.trans hconsumes, heof, houtcome.trans hlast⟩
    | returns hleft hopen hframes houtcome =>
      have hlength := length_frames_tail hopen
      refine ⟨by rw [hleft, hframes]; omega, fun last ⟨hconsumes, heof, hlast⟩ => ?_⟩
      exact ⟨hleft ▸ hconsumes, heof, houtcome.trans hlast⟩
  · intro r r' hturn
    have hmoves := moves_turn file source r
    rw [hturn] at hmoves
    cases hmoves with
    | done hconsumes heof houtcome => exact ⟨hconsumes, heof, houtcome⟩

end Reader

/-- **The reading of any tokens ends.** Of the file's own loops each turn takes tokens away, or returns to the
block around, which it does as often as blocks were opened. The loops that pass over tokens take at least one away
in each turn but the last one. Where the end of the file is the last token and nowhere else, a reading that meets
fewer faults than the limit takes all tokens before it. -/
theorem readTokens_ends (t : Outline) (parent : Nat) (file : Option Path) (source : String) {body : List Token}
    {last : Token} (hbody : ∀ t ∈ body, t.kind ≠ .eof) (hlast : last.kind = .eof) :
    let tokens := body ++ [last]
    (∃ n ≤ 2 * tokens.length + 1, ∃ r : Reader,
      Turn.Ends (Reader.turn file source) n ⟨⟨t, parent, [], [], []⟩, none, tokens⟩ r ∧
        t.readTokens parent file source tokens = ⟨r.cursor.outline, r.cursor.modules, r.cursor.faults⟩ ∧
        (r.cursor.faults.length < Mark.maxFaults → r.left = [last])) ∧
      (∀ r r' : Reader, r.turn file source = .again r' →
        Advances r.left r'.left ∨ r'.left = r.left ∧ r.cursor.frames ≠ [] ∧
          r'.cursor.frames = r.cursor.frames.tail) ∧
      ∀ run, ∀ loop ∈ Loop.all (.ofString source) run, ∀ depth ts,
        (∀ depth' ts', loop.turn (depth, ts) = .again (depth', ts') → Advances ts ts') ∧
          ∃ n ≤ ts.length + 1, Turn.Ends loop.turn n (depth, ts) (loop.rest depth ts) := by
  intro tokens
  refine ⟨?_, fun r r' hturn => ?_, fun run loop hloop depth ts => ⟨fun depth' ts' hturn => ?_, ?_⟩⟩
  · obtain ⟨n, hn, r, hends, hconsumes, heof, houtcome⟩ :=
      Reader.exists_ends file source ⟨⟨t, parent, [], [], []⟩, none, tokens⟩
    refine ⟨n, hn, r, hends, ?_, fun hfaults => hconsumes.eq_last hbody hlast (heof hfaults)⟩
    rw [← houtcome]
    rfl
  · have hmoves := Reader.moves_turn file source r
    rw [hturn] at hmoves
    cases hmoves with
    | advances hleft => exact .inl hleft
    | returns hleft hopen hframes => exact .inr ⟨hleft, hopen, hframes⟩
  · have hmoves := Loop.sound_of_mem_all hloop depth ts
    rw [hturn] at hmoves
    cases hmoves with
    | again hadvances => exact hadvances
  · exact (Loop.sound_of_mem_all hloop).exists_ends depth ts

/-- A brace that closes nothing, a function without a name and a module that is not closed: three faults, and all
tokens before the end of the file are taken. -/
theorem readTokens_ends_malformed :
    let span : Span := ⟨0, 0⟩
    let body : List Token := [⟨.closing .brace, span⟩, ⟨.keyword .modKw, span⟩, ⟨.name "a", span⟩,
      ⟨.opening .brace, span⟩, ⟨.keyword .fnKw, span⟩, ⟨.symbol .semi, span⟩]
    let last : Token := ⟨.eof, span⟩
    let t := (empty.addRoot .crate "c").2
    ((∀ t ∈ body, t.kind ≠ .eof) ∧ last.kind = .eof) ∧ ∃ n ≤ 15, ∃ r : Reader,
      Turn.Ends (Reader.turn none "") n ⟨⟨t, 0, [], [], []⟩, none, body ++ [last]⟩ r ∧
        r.cursor.faults.length = 3 ∧ r.left = [last] := by
  intro span body last t
  have hbody : ∀ t ∈ body, t.kind ≠ .eof := by decide
  obtain ⟨⟨n, hn, r, hends, hreading, hleft⟩, -⟩ :=
    readTokens_ends t 0 none "" hbody (rfl : last.kind = .eof)
  have hfaults : (t.readTokens 0 none "" (body ++ [last])).faults.length = 3 := by decide +kernel
  rw [hreading] at hfaults
  exact ⟨⟨hbody, rfl⟩, n, hn, r, hends, hfaults, hleft (hfaults ▸ by decide)⟩

end Doctest.Outline

import KulloClient.Crypto.DecryptingFilter

/-!
# FilterChain

Filters in front of a sink.  What is written goes to the filter that was pushed last, and what a filter writes goes to
the one that was pushed before it.  A filter may do what it likes when its sink raises; it never closes its sink.
Each stage has a number, 0 for the sink, and the trace says which stage was written to or closed, in the order of the
calls.
-/

namespace KulloClient

open Pipeline Imperative

structure Filter where
  State : Type
  init : State
  write : State → Bytes → Call Exn Bytes State
  close : State → Call Exn Bytes State

structure Sink where
  State : Type
  init : State
  write : Bytes → EStateM Exn State Unit
  close : EStateM Exn State Unit

namespace FilterChain

inductive Event
  | write (stage : Nat) (buffer : Bytes)
  | close (stage : Nat)
  deriving DecidableEq

/-- The filters' states; the filter that was pushed last comes first. -/
def States : List Filter → Type
  | [] => Unit
  | f :: fs => f.State × States fs

variable (S : Sink)

structure World where
  sink : S.State
  trace : List Event := []

def World.log {S : Sink} (w : World S) (e : Event) : World S := { w with trace := w.trace ++ [e] }

abbrev StageM (fs : List Filter) := EStateM Exn (States fs × World S) Unit

def onSink (x : EStateM Exn S.State Unit) : StageM S [] := fun s =>
  match x s.2.sink with
  | .ok _ sink => .ok () (s.1, { s.2 with sink := sink })
  | .error e sink => .error e (s.1, { s.2 with sink := sink })

/-- A call of a filter, with the stages below as its sink. -/
def onFilter {f : Filter} {fs : List Filter} (sink : Bytes → StageM S fs) (call : Call Exn Bytes f.State) :
    StageM S (f :: fs) := fun s =>
  let fed := call.run sink (s.1.2, s.2)
  match fed.raised with
  | none => .ok () ((fed.filter, fed.sink.1), fed.sink.2)
  | some e => .error e ((fed.filter, fed.sink.1), fed.sink.2)

/-- `FilterSink::write`, or the sink's own `write` below all filters. -/
def stageWrite : (fs : List Filter) → Bytes → StageM S fs
  | [], buffer => fun s => onSink S (S.write buffer) (s.1, s.2.log (.write 0 buffer))
  | f :: fs, buffer => fun s =>
    onFilter S (stageWrite fs) (f.write s.1.1 buffer) (s.1, s.2.log (.write (fs.length + 1) buffer))

/-- The loop of `close` over the filters, and the sink's `close`. -/
def stagesClose : (fs : List Filter) → StageM S fs
  | [] => fun s => onSink S S.close (s.1, s.2.log (.close 0))
  | f :: fs => fun s =>
    match onFilter S (stageWrite S fs) (f.close s.1.1) (s.1, s.2.log (.close (fs.length + 1))) with
    | .error e s => .error e s
    | .ok _ s =>
      match stagesClose fs (s.1.2, s.2) with
      | .ok _ rest => .ok () ((s.1.1, rest.1), rest.2)
      | .error e rest => .error e ((s.1.1, rest.1), rest.2)

end FilterChain

open FilterChain

structure FilterChain (S : Sink) where
  filters : List Filter := []
  states : States filters
  world : World S
  dataWritten : Bool := false
  closed : Bool := false

namespace FilterChain

variable {S : Sink}

def new (S : Sink) : FilterChain S := { filters := [], states := (), world := { sink := S.init } }

/-- The exception, if there is one, and the chain. -/
def ended (c : FilterChain S) : EStateM.Result Exn (States c.filters × World S) Unit → Option Exn × FilterChain S
  | .ok _ s => (none, { c with states := s.1, world := s.2 })
  | .error e s => (some e, { c with states := s.1, world := s.2 })

def pushFilter (c : FilterChain S) (filter : Filter) : Option Exn × FilterChain S :=
  if c.dataWritten then (some (.assertionFailed "!dataWritten_"), c)
  else if c.closed then (some (.assertionFailed "!closed_"), c)
  else (none, { c with filters := filter :: c.filters, states := (filter.init, c.states) })

def write (c : FilterChain S) (buffer : Bytes) : Option Exn × FilterChain S :=
  if c.closed then (some (.assertionFailed "!closed_"), c)
  else { c with dataWritten := true }.ended (stageWrite S c.filters buffer (c.states, c.world))

def close (c : FilterChain S) : Option Exn × FilterChain S :=
  if c.closed then (some (.assertionFailed "!closed_"), c)
  else { c with closed := true }.ended (stagesClose S c.filters (c.states, c.world))

/-- `FilterChain::~FilterChain`, which suppresses exceptions. -/
def destroy (c : FilterChain S) : FilterChain S := if c.closed then c else c.close.2

inductive Op
  | pushFilter (filter : Filter)
  | write (buffer : Bytes)
  | close

def step (c : FilterChain S) : Op → Option Exn × FilterChain S
  | .pushFilter filter => c.pushFilter filter
  | .write buffer => c.write buffer
  | .close => c.close

/-- Some calls, whatever they raise. -/
def run (c : FilterChain S) : List Op → List (Option Exn) × FilterChain S
  | [] => ([], c)
  | op :: ops => ((c.step op).1 :: ((c.step op).2.run ops).1, ((c.step op).2.run ops).2)

/-! ### The trace -/

def writesTo (stage : Nat) (trace : List Event) : List Bytes :=
  trace.filterMap fun
    | .write i buffer => if i = stage then some buffer else none
    | .close _ => none

def closes (trace : List Event) : List Nat :=
  trace.filterMap fun
    | .write _ _ => none
    | .close i => some i

private theorem writesTo_append (stage : Nat) (t t' : List Event) : writesTo stage (t ++ t') = writesTo stage t ++ writesTo stage t' :=
  List.filterMap_append

private theorem closes_append (t t' : List Event) : closes (t ++ t') = closes t ++ closes t' := List.filterMap_append

/-- Only writes, to stages up to `n`. -/
def WritesUpTo (n : Nat) (t : List Event) : Prop := ∀ e ∈ t, ∃ i ≤ n, ∃ buffer, e = .write i buffer

theorem WritesUpTo.append {n : Nat} {t t' : List Event} (h : WritesUpTo n t) (h' : WritesUpTo n t') :
    WritesUpTo n (t ++ t') := by
  intro e he
  rcases List.mem_append.mp he with he | he
  · exact h e he
  · exact h' e he

theorem WritesUpTo.mono {m n : Nat} {t : List Event} (h : WritesUpTo m t) (hle : m ≤ n) : WritesUpTo n t := by
  intro e he
  obtain ⟨i, hi, buffer, rfl⟩ := h e he
  exact ⟨i, by omega, buffer, rfl⟩

theorem WritesUpTo.closes {n : Nat} {t : List Event} (h : WritesUpTo n t) : closes t = [] := by
  refine List.filterMap_eq_nil_iff.mpr fun e he => ?_
  obtain ⟨i, -, buffer, rfl⟩ := h e he
  rfl

private theorem WritesUpTo.writesTo {n stage : Nat} {t : List Event} (h : WritesUpTo n t) (hlt : n < stage) :
    writesTo stage t = [] := by
  refine List.filterMap_eq_nil_iff.mpr fun e he => ?_
  obtain ⟨i, hi, buffer, rfl⟩ := h e he
  exact if_neg (by omega)

/-- From one world to the other there were only writes, to stages up to `n`. -/
def Grows (n : Nat) (w w' : World S) : Prop := ∃ t, w'.trace = w.trace ++ t ∧ WritesUpTo n t

theorem Grows.refl (n : Nat) (w : World S) : Grows n w w :=
  ⟨[], (List.append_nil _).symm, fun _ he => absurd he List.not_mem_nil⟩

theorem Grows.trans {n : Nat} {w w' w'' : World S} (h : Grows n w w') (h' : Grows n w' w'') : Grows n w w'' := by
  obtain ⟨t, ht, hwrites⟩ := h
  obtain ⟨t', ht', hwrites'⟩ := h'
  exact ⟨t ++ t', by rw [ht', ht, List.append_assoc], hwrites.append hwrites'⟩

theorem Grows.mono {m n : Nat} {w w' : World S} (h : Grows m w w') (hle : m ≤ n) : Grows n w w' := by
  obtain ⟨t, ht, hwrites⟩ := h
  exact ⟨t, ht, hwrites.mono hle⟩

private theorem grows_log (w : World S) {n stage : Nat} (hle : stage ≤ n) (buffer : Bytes) :
    Grows n w (w.log (.write stage buffer)) := by
  refine ⟨[.write stage buffer], rfl, fun e he => ?_⟩
  rw [List.mem_singleton.mp he]
  exact ⟨stage, hle, buffer, rfl⟩

/-- A call of a filter moves the world as its writes to the stages below do. -/
theorem onFilter_grows {f : Filter} {fs : List Filter} {n : Nat} {sink : Bytes → StageM S fs}
    (hsink : ∀ buffer s, Ends (sink buffer) s (fun _ s' => Grows n s.2 s'.2) (fun _ s' => Grows n s.2 s'.2))
    (call : Call Exn Bytes f.State) (s : States (f :: fs) × World S) :
    Ends (onFilter S sink call) s (fun _ s' => Grows n s.2 s'.2) (fun _ s' => Grows n s.2 s'.2) := by
  have hrun := Call.run_moves (R := fun s s' : States fs × World S => Grows n s.2 s'.2) (fun s => Grows.refl n s.2)
    (fun _ _ _ h h' => h.trans h') hsink call (s.1.2, s.2)
  unfold Ends onFilter
  dsimp only
  cases (call.run sink (s.1.2, s.2)).raised <;> exact hrun

private theorem stageWrite_grows (fs : List Filter) (buffer : Bytes) (s : States fs × World S) :
    Ends (stageWrite S fs buffer) s (fun _ s' => Grows fs.length s.2 s'.2) (fun _ s' => Grows fs.length s.2 s'.2) := by
  induction fs generalizing buffer with
  | nil =>
    have hlog := grows_log s.2 (Nat.le_refl 0) buffer
    unfold Ends stageWrite onSink
    dsimp only
    cases S.write buffer (s.2.log (.write 0 buffer)).sink <;> exact hlog
  | cons f fs ih =>
    have hlog := grows_log s.2 (Nat.le_refl (fs.length + 1)) buffer
    have hcall := onFilter_grows (f := f) (n := fs.length) ih (f.write s.1.1 buffer)
      (s.1, s.2.log (.write (fs.length + 1) buffer))
    have hmove : ∀ s' : States (f :: fs) × World S, Grows fs.length (s.2.log (.write (fs.length + 1) buffer)) s'.2 →
        Grows (fs.length + 1) s.2 s'.2 := fun s' h => hlog.trans (h.mono (by omega))
    unfold Ends stageWrite
    exact hcall.mono (fun _ s' h => hmove s' h) (fun _ s' h => hmove s' h)

/-! ### Closing -/

/-- The stages up to `n`, each closed once, and what a stage emits at its close before the next one is closed. -/
inductive Closing : Nat → List Event → Prop
  | sink : Closing 0 [.close 0]
  | stage {n : Nat} {emitted t : List Event} (hemitted : WritesUpTo n emitted) (hrest : Closing n t) :
    Closing (n + 1) (.close (n + 1) :: emitted ++ t)

private theorem reverse_range_succ (n : Nat) : (List.range (n + 1)).reverse = n :: (List.range n).reverse := by
  rw [List.range_succ, List.reverse_append]
  rfl

theorem Closing.closes {n : Nat} {t : List Event} (h : Closing n t) : closes t = (List.range (n + 1)).reverse := by
  induction h with
  | sink => rfl
  | stage hemitted hrest ih =>
    rename_i n emitted t
    have hclose : FilterChain.closes (.close (n + 1) :: emitted ++ t) = (n + 1) :: FilterChain.closes (emitted ++ t) := rfl
    rw [hclose, closes_append, hemitted.closes, List.nil_append, ih, reverse_range_succ (n + 1)]

private theorem Closing.writesTo {n stage : Nat} {t : List Event} (h : Closing n t) (hle : n ≤ stage) :
    writesTo stage t = [] := by
  induction h with
  | sink => rfl
  | stage hemitted hrest ih =>
    rename_i n emitted t
    have hclose : FilterChain.writesTo stage (.close (n + 1) :: emitted ++ t) = FilterChain.writesTo stage (emitted ++ t) := rfl
    rw [hclose, writesTo_append, hemitted.writesTo (by omega), ih (by omega), List.nil_append]

/-- However the loop ends, it closes stages from the last one down, none of them twice. -/
theorem stagesClose_closes (fs : List Filter) (s : States fs × World S) :
    Ends (stagesClose S fs) s
      (fun _ s' => ∃ t, s'.2.trace = s.2.trace ++ t ∧ closes t <+: (List.range (fs.length + 1)).reverse)
      (fun _ s' => ∃ t, s'.2.trace = s.2.trace ++ t ∧ closes t <+: (List.range (fs.length + 1)).reverse) := by
  induction fs with
  | nil =>
    have hlog : ∃ t, (s.2.log (.close 0)).trace = s.2.trace ++ t ∧ closes t <+: (List.range (0 + 1)).reverse :=
      ⟨[.close 0], rfl, List.prefix_refl _⟩
    unfold Ends stagesClose onSink
    dsimp only
    cases S.close (s.2.log (.close 0)).sink <;> exact hlog
  | cons f fs ih =>
    have hcall := onFilter_grows (f := f) (stageWrite_grows fs) (f.close s.1.1) (s.1, s.2.log (.close (fs.length + 1)))
    unfold Ends stagesClose
    rw [List.length_cons, reverse_range_succ (fs.length + 1)]
    cases hc : onFilter S (stageWrite S fs) (f.close s.1.1) (s.1, s.2.log (.close (fs.length + 1))) with
    | error e s' =>
      -- the filter raised: the stages below stay open
      obtain ⟨t, ht, hwrites⟩ := ends_of_error hcall hc
      refine ⟨.close (fs.length + 1) :: t, by rw [ht]; simp [World.log], ?_⟩
      have hclose : closes (.close (fs.length + 1) :: t) = (fs.length + 1) :: closes t := rfl
      rw [hclose, hwrites.closes]
      simp
    | ok u s' =>
      obtain ⟨t, ht, hwrites⟩ := ends_of_ok hcall hc
      have hrest := ih (s'.1.2, s'.2)
      have hclose : ∀ t', closes (.close (fs.length + 1) :: t ++ t') = (fs.length + 1) :: closes t' := by
        intro t'
        have hcons : closes (.close (fs.length + 1) :: t ++ t') = (fs.length + 1) :: closes (t ++ t') := rfl
        rw [hcons, closes_append, hwrites.closes, List.nil_append]
      have hall : ∀ s'' : States fs × World S,
          (∃ t', s''.2.trace = s'.2.trace ++ t' ∧ closes t' <+: (List.range (fs.length + 1)).reverse) →
          ∃ t', s''.2.trace = s.2.trace ++ t' ∧ closes t' <+: (fs.length + 1) :: (List.range (fs.length + 1)).reverse := by
        rintro s'' ⟨t', ht', hbegin⟩
        refine ⟨.close (fs.length + 1) :: t ++ t', by rw [ht', ht]; simp [World.log], ?_⟩
        rw [hclose]
        exact List.cons_prefix_cons.mpr ⟨rfl, hbegin⟩
      dsimp only
      cases hr : stagesClose S fs (s'.1.2, s'.2) with
      | ok v s'' => exact hall s'' (ends_of_ok hrest hr)
      | error e s'' => exact hall s'' (ends_of_error hrest hr)

/-- The stages that were closed so far, from the last one down, and none before `close` was called. -/
def Ordered (c : FilterChain S) : Prop :=
  closes c.world.trace <+: (List.range (c.filters.length + 1)).reverse ∧ (c.closed = false → closes c.world.trace = [])

private theorem ordered_new (S : Sink) : Ordered (new S) := ⟨List.nil_prefix, fun _ => rfl⟩

theorem Ordered.close {c : FilterChain S} (h : Ordered c) : Ordered c.close.2 := by
  unfold FilterChain.close
  split
  · exact h
  · next hopen =>
    have hnone := h.2 (by simpa using hopen)
    have hclose := stagesClose_closes c.filters (c.states, c.world)
    have hall : ∀ s' : States c.filters × World S,
        (∃ t, s'.2.trace = c.world.trace ++ t ∧ closes t <+: (List.range (c.filters.length + 1)).reverse) →
        Ordered { c with closed := true, states := s'.1, world := s'.2 } := by
      rintro s' ⟨t, ht, hbegin⟩
      refine ⟨?_, fun hfalse => absurd hfalse (by simp)⟩
      dsimp only
      rw [ht, closes_append, hnone, List.nil_append]
      exact hbegin
    cases hr : stagesClose S c.filters (c.states, c.world) with
    | ok u s' => exact hall s' (ends_of_ok hclose hr)
    | error e s' => exact hall s' (ends_of_error hclose hr)

theorem Ordered.write {c : FilterChain S} (h : Ordered c) (buffer : Bytes) : Ordered (c.write buffer).2 := by
  unfold FilterChain.write
  split
  · exact h
  · have hwrite := stageWrite_grows c.filters buffer (c.states, c.world)
    have hall : ∀ s' : States c.filters × World S, Grows c.filters.length c.world s'.2 →
        Ordered { c with dataWritten := true, states := s'.1, world := s'.2 } := by
      rintro s' ⟨t, ht, hwrites⟩
      have hcloses : closes s'.2.trace = closes c.world.trace := by
        rw [ht, closes_append, hwrites.closes, List.append_nil]
      exact ⟨hcloses ▸ h.1, fun hopen => hcloses ▸ h.2 hopen⟩
    cases hr : stageWrite S c.filters buffer (c.states, c.world) with
    | ok u s' =>
      have hgrows := ends_of_ok hwrite hr
      exact hall s' hgrows
    | error e s' =>
      have hgrows := ends_of_error hwrite hr
      exact hall s' hgrows

private theorem Ordered.pushFilter {c : FilterChain S} (h : Ordered c) (filter : Filter) : Ordered (c.pushFilter filter).2 := by
  unfold FilterChain.pushFilter
  split
  · exact h
  · split
    · exact h
    · next hopen =>
      have hnone := h.2 (by simpa using hopen)
      refine ⟨?_, fun _ => hnone⟩
      dsimp only
      rw [hnone]
      exact List.nil_prefix

theorem Ordered.step {c : FilterChain S} (h : Ordered c) (op : Op) : Ordered (c.step op).2 := by
  cases op with
  | pushFilter filter => exact h.pushFilter filter
  | write buffer => exact h.write buffer
  | close => exact h.close

theorem Ordered.run {c : FilterChain S} (h : Ordered c) (ops : List Op) : Ordered (c.run ops).2 := by
  induction ops generalizing c with
  | nil => exact h
  | cons op ops ih => exact ih (h.step op)

theorem Ordered.destroy {c : FilterChain S} (h : Ordered c) : Ordered c.destroy := by
  unfold FilterChain.destroy
  split
  · exact h
  · exact h.close

theorem Ordered.nodup {c : FilterChain S} (h : Ordered c) : (closes c.world.trace).Nodup :=
  h.1.sublist.nodup (List.nodup_reverse.mpr List.nodup_range)

end FilterChain

/-! ### Composition -/

namespace Filter

/-- What a filter emits for some writes, and its state after them, unless it raises. -/
def emitted (f : Filter) (st : f.State) : List Bytes → Option (List Bytes × f.State)
  | [] => some ([], st)
  | buffer :: rest =>
    match (f.write st buffer).outcome with
    | .error _ => none
    | .ok st' => (f.emitted st' rest).map fun r => ((f.write st buffer).output ++ r.1, r.2)

/-- A filter as a function of what is written to it: what it emits for the writes and then at its close. -/
def apply (f : Filter) (writes : List Bytes) : Option (List Bytes) :=
  match f.emitted f.init writes with
  | none => none
  | some (out, st) =>
    match (f.close st).outcome with
    | .error _ => none
    | .ok _ => some (out ++ (f.close st).output)

private theorem emitted_append (f : Filter) (st : f.State) (before after : List Bytes) :
    f.emitted st (before ++ after) =
      (f.emitted st before).bind fun r => (f.emitted r.2 after).map fun r' => (r.1 ++ r'.1, r'.2) := by
  induction before generalizing st with
  | nil => simp [emitted]
  | cons buffer rest ih =>
    rw [List.cons_append, emitted, emitted]
    cases (f.write st buffer).outcome with
    | error e => rfl
    | ok st' =>
      dsimp only
      rw [ih]
      cases f.emitted st' rest with
      | none => rfl
      | some r => simp [Option.map_map, Function.comp_def]

end Filter

namespace FilterChain

/-- The filters one after the other, the first of the list first. -/
def composition : List Filter → List Bytes → Option (List Bytes)
  | [], writes => some writes
  | f :: fs, writes => (f.apply writes).bind (composition fs)

/-- What was written to each stage is what the filters above it emitted, and their states are those after that. -/
def Seen : (fs : List Filter) → States fs → World S → List Bytes → Prop
  | [], _, w, given => writesTo 0 w.trace = given ∧ writeEach S.write given S.init = .ok () w.sink
  | f :: fs, sts, w, given =>
    writesTo (fs.length + 1) w.trace = given ∧
      ∃ emitted, f.emitted f.init given = some (emitted, sts.1) ∧ Seen fs sts.2 w emitted

private theorem writesTo_log (w : World S) (stage i : Nat) (buffer : Bytes) :
    writesTo stage (w.log (.write i buffer)).trace =
      if i = stage then writesTo stage w.trace ++ [buffer] else writesTo stage w.trace := by
  unfold World.log
  rw [writesTo_append]
  split
  · next h => simp [writesTo, h]
  · next h => simp [writesTo, h]

/-- What happens above does not matter. -/
theorem Seen.of_trace {fs : List Filter} {sts : States fs} {w w' : World S} {given : List Bytes} (h : Seen fs sts w given)
    (hsink : w'.sink = w.sink) (htrace : ∀ stage ≤ fs.length, writesTo stage w'.trace = writesTo stage w.trace) :
    Seen fs sts w' given := by
  induction fs generalizing given with
  | nil =>
    obtain ⟨hgiven, hwritten⟩ := h
    exact ⟨(htrace 0 (Nat.le_refl 0)).trans hgiven, hsink ▸ hwritten⟩
  | cons f fs ih =>
    obtain ⟨hgiven, emitted, hemitted, hrest⟩ := h
    refine ⟨(htrace (fs.length + 1) (Nat.le_refl _)).trans hgiven, emitted, hemitted, ?_⟩
    refine ih hrest fun stage hle => htrace stage ?_
    rw [List.length_cons]
    omega

theorem Seen.log {fs : List Filter} {sts : States fs} {w : World S} {given : List Bytes} (h : Seen fs sts w given)
    {i : Nat} (hlt : fs.length < i) (buffer : Bytes) : Seen fs sts (w.log (.write i buffer)) given := by
  refine h.of_trace rfl fun stage hle => ?_
  rw [writesTo_log, if_neg (by omega)]

private theorem Grows.writesTo {n stage : Nat} {w w' : World S} (h : Grows n w w') (hlt : n < stage) :
    writesTo stage w'.trace = writesTo stage w.trace := by
  obtain ⟨t, ht, hwrites⟩ := h
  rw [ht, writesTo_append, hwrites.writesTo hlt, List.append_nil]

/-- Neither a filter nor the sink raises on these writes. -/
def Takes (S : Sink) (fs : List Filter) (writes : List Bytes) : Prop :=
  ∃ out s, composition fs writes = some out ∧ writeEach S.write out S.init = .ok () s

/-- A filter that takes its writes emits, for the ones at the beginning, a beginning of what the stages below take. -/
theorem Takes.filter {f : Filter} {fs : List Filter} {writes : List Bytes} (h : Takes S (f :: fs) writes) :
    ∃ mid, f.apply writes = some mid ∧ Takes S fs mid := by
  obtain ⟨out, s, hout, hs⟩ := h
  unfold composition at hout
  obtain ⟨mid, hmid, hout⟩ := Option.bind_eq_some_iff.mp hout
  exact ⟨mid, hmid, out, s, hout, hs⟩

private theorem apply_eq_some {f : Filter} {writes mid : List Bytes} (h : f.apply writes = some mid) :
    ∃ out st st', f.emitted f.init writes = some (out, st) ∧ (f.close st).outcome = .ok st' ∧
      mid = out ++ (f.close st).output := by
  unfold Filter.apply at h
  cases he : f.emitted f.init writes with
  | none =>
    rw [he] at h
    cases h
  | some r =>
    rw [he] at h
    dsimp only at h
    cases hc : (f.close r.2).outcome with
    | error e =>
      rw [hc] at h
      cases h
    | ok st' =>
      rw [hc] at h
      cases h
      exact ⟨r.1, r.2, st', rfl, hc, rfl⟩

/-- The next write, of those a filter takes. -/
theorem emitted_next {f : Filter} {given writes emitted mid : List Bytes} {buffer : Bytes} {st : f.State}
    (hmid : f.apply writes = some mid) (hbegin : given ++ [buffer] <+: writes)
    (hgiven : f.emitted f.init given = some (emitted, st)) :
    ∃ st', (f.write st buffer).outcome = .ok st' ∧
      f.emitted f.init (given ++ [buffer]) = some (emitted ++ (f.write st buffer).output, st') ∧
      emitted ++ (f.write st buffer).output <+: mid := by
  obtain ⟨after, rfl⟩ := hbegin
  obtain ⟨out, last, -, hout, -, rfl⟩ := apply_eq_some hmid
  rw [f.emitted_append] at hout
  obtain ⟨r, hr, hout⟩ := Option.bind_eq_some_iff.mp hout
  have hstep := f.emitted_append f.init given [buffer]
  rw [hgiven, Option.bind_some] at hstep
  dsimp only at hstep
  rw [Filter.emitted] at hstep
  cases hw : (f.write st buffer).outcome with
  | error e =>
    rw [hw] at hstep
    rw [hstep] at hr
    cases hr
  | ok st' =>
    rw [hw] at hstep
    simp only [Filter.emitted, Option.map_some, List.append_nil] at hstep
    rw [hstep] at hr
    cases hr
    obtain ⟨r', -, hout⟩ := Option.map_eq_some_iff.mp hout
    cases hout
    exact ⟨st', rfl, hstep, by simp [List.append_assoc]⟩

/-- A call that emits what the stages below take. -/
theorem onFilter_seen {f : Filter} {fs : List Filter} {call : Call Exn Bytes f.State} {st' : f.State}
    {emitted mid : List Bytes} {s : States (f :: fs) × World S}
    (hsink : ∀ given buffer sts w, given ++ [buffer] <+: mid → Seen fs sts w given →
      ∃ s', stageWrite S fs buffer (sts, w) = .ok () s' ∧ Seen fs s'.1 s'.2 (given ++ [buffer]))
    (hcall : call.outcome = .ok st') (hbegin : emitted ++ call.output <+: mid) (hs : Seen fs s.1.2 s.2 emitted) :
    ∃ sts w, onFilter S (stageWrite S fs) call s = .ok () ((st', sts), w) ∧ Seen fs sts w (emitted ++ call.output) ∧
      Grows fs.length s.2 w := by
  have hrun : ∃ t : States fs × World S, call.run (stageWrite S fs) (s.1.2, s.2) = ⟨none, st', t⟩ ∧
      Seen fs t.1 t.2 (emitted ++ call.output) ∧ Grows fs.length s.2 t.2 :=
    Call.run_induction (I := fun given (t : States fs × World S) => Seen fs t.1 t.2 given ∧ Grows fs.length s.2 t.2)
      hcall ⟨hs, Grows.refl _ _⟩ ?_
  · obtain ⟨t, hfed, hseen, hgrows⟩ := hrun
    refine ⟨t.1, t.2, ?_, hseen, hgrows⟩
    unfold onFilter
    rw [hfed]
  · intro before buffer t hbefore ht
    obtain ⟨t', hwrite, hseen⟩ := hsink before buffer t.1 t.2 (hbefore.trans hbegin) ht.1
    have hgrows := ends_of_ok (stageWrite_grows fs buffer t) hwrite
    exact ⟨t', hwrite, hseen, ht.2.trans hgrows⟩

/-- A write that no stage objects to. -/
theorem stageWrite_seen {fs : List Filter} {writes given : List Bytes} {buffer : Bytes} {sts : States fs} {w : World S}
    (htakes : Takes S fs writes) (hbegin : given ++ [buffer] <+: writes) (hs : Seen fs sts w given) :
    ∃ s', stageWrite S fs buffer (sts, w) = .ok () s' ∧ Seen fs s'.1 s'.2 (given ++ [buffer]) := by
  induction fs generalizing writes given buffer w with
  | nil =>
    obtain ⟨after, rfl⟩ := hbegin
    obtain ⟨out, last, hout, hlast⟩ := htakes
    cases hout
    obtain ⟨hgiven, hwritten⟩ := hs
    obtain ⟨s', hw, hs'⟩ := writeEach_concat hlast hwritten
    refine ⟨(sts, { w.log (.write 0 buffer) with sink := s' }), ?_, ?_, hs'⟩
    · unfold stageWrite onSink
      dsimp only
      rw [show (w.log (.write 0 buffer)).sink = w.sink from rfl, hw]
    · have hlog := writesTo_log w 0 0 buffer
      rw [if_pos rfl, hgiven] at hlog
      exact hlog
  | cons f fs ih =>
    obtain ⟨mid, hmid, htakes'⟩ := htakes.filter
    obtain ⟨hgiven, emitted, hemitted, hrest⟩ := hs
    obtain ⟨st', houtcome, hnext, hbegin'⟩ := emitted_next hmid hbegin hemitted
    obtain ⟨sts', w', hcall, hseen, hgrows⟩ := onFilter_seen (s := (sts, w.log (.write (fs.length + 1) buffer)))
      (fun _ _ _ _ h hs => ih htakes' h hs) houtcome hbegin' (hrest.log (by omega) buffer)
    refine ⟨((st', sts'), w'), hcall, ?_, _, hnext, hseen⟩
    have hlog := writesTo_log w (fs.length + 1) (fs.length + 1) buffer
    rw [if_pos rfl, hgiven] at hlog
    dsimp only
    rw [hgrows.writesTo (by omega), hlog]

/-- The loop of `close` after writes that no stage objects to: what the trace then holds. -/
theorem stagesClose_seen {fs : List Filter} {writes out : List Bytes} {sts : States fs} {w : World S} {last : S.State}
    (hout : composition fs writes = some out) (hwrite : writeEach S.write out S.init = .ok () last)
    {final : S.State} (hclose : S.close last = .ok () final) (hs : Seen fs sts w writes) :
    ∃ s' t, stagesClose S fs (sts, w) = .ok () s' ∧ s'.2.sink = final ∧ s'.2.trace = w.trace ++ t ∧ Closing fs.length t ∧
      ∀ k ≤ fs.length, composition (fs.take k) writes = some (writesTo (fs.length - k) s'.2.trace) := by
  induction fs generalizing writes w with
  | nil =>
    cases hout
    obtain ⟨hgiven, hwritten⟩ := hs
    rw [hwrite] at hwritten
    cases hwritten
    refine ⟨(sts, { w.log (.close 0) with sink := final }), [.close 0], ?_, rfl, rfl, .sink, ?_⟩
    · unfold stagesClose onSink
      dsimp only
      rw [show (w.log (.close 0)).sink = w.sink from rfl, hclose]
    · intro k hk
      have hlog : writesTo 0 (w.log (.close 0)).trace = writesTo 0 w.trace := by
        unfold World.log
        rw [writesTo_append]
        exact List.append_nil _
      have hzero : k = 0 := by simpa using hk
      subst hzero
      exact congrArg some (hgiven.symm.trans hlog.symm)
  | cons f fs ih =>
    unfold composition at hout
    obtain ⟨mid, hmid, hout⟩ := Option.bind_eq_some_iff.mp hout
    obtain ⟨hgiven, emitted, hemitted, hrest⟩ := hs
    obtain ⟨emitted', st, st', hemitted', houtcome, rfl⟩ := apply_eq_some hmid
    rw [hemitted] at hemitted'
    cases hemitted'
    have htakes : Takes S fs (emitted ++ (f.close sts.1).output) := ⟨out, last, hout, hwrite⟩
    have hseen : Seen fs sts.2 (w.log (.close (fs.length + 1))) emitted := by
      refine hrest.of_trace rfl fun stage _ => ?_
      unfold World.log
      rw [writesTo_append]
      exact List.append_nil _
    obtain ⟨sts', w', hcall, hseen', hgrows⟩ := onFilter_seen (s := (sts, w.log (.close (fs.length + 1))))
      (fun _ _ _ _ h hs => stageWrite_seen htakes h hs) houtcome (List.prefix_refl _) hseen
    obtain ⟨s'', t, hloop, hfinal, htrace, hclosing, hstages⟩ := ih hout hseen'
    obtain ⟨t', ht', hwrites⟩ := hgrows
    refine ⟨((st', s''.1), s''.2), .close (fs.length + 1) :: t' ++ t, ?_, hfinal, ?_, .stage hwrites hclosing, ?_⟩
    · unfold stagesClose
      dsimp only
      rw [hcall]
      dsimp only
      rw [hloop]
    · rw [htrace, ht']
      simp [World.log]
    · intro k hk
      cases k with
      | zero =>
        -- the top stage was written to before the loop only
        have htop : writesTo (fs.length + 1) s''.2.trace = writes := by
          rw [htrace, ht', writesTo_append, writesTo_append, hwrites.writesTo (by omega), hclosing.writesTo (by omega),
            List.append_nil, List.append_nil]
          unfold World.log
          rw [writesTo_append, hgiven]
          exact List.append_nil _
        exact congrArg some htop.symm
      | succ k =>
        have hk' : k ≤ fs.length := by simpa using hk
        rw [List.take_succ_cons, composition, hmid, Option.bind_some, hstages k hk', List.length_cons,
          Nat.add_sub_add_right]

/-! ### Runs of a chain -/

theorem run_append (c : FilterChain S) (ops ops' : List Op) :
    c.run (ops ++ ops') = ((c.run ops).1 ++ ((c.run ops).2.run ops').1, ((c.run ops).2.run ops').2) := by
  induction ops generalizing c with
  | nil => rfl
  | cons op ops ih =>
    rw [List.cons_append, run, run, ih]
    rfl

/-- Filters are pushed before anything is written. -/
theorem run_pushFilter (pushed : List Filter) {c : FilterChain S} (hwritten : c.dataWritten = false)
    (hclosed : c.closed = false) (htrace : c.world.trace = []) (hs : Seen c.filters c.states c.world []) :
    ∃ c', c.run (pushed.map .pushFilter) = (pushed.map fun _ => none, c') ∧ c'.filters = pushed.reverse ++ c.filters ∧
      c'.closed = false ∧ c'.world.trace = [] ∧ Seen c'.filters c'.states c'.world [] := by
  induction pushed generalizing c with
  | nil => exact ⟨c, rfl, rfl, hclosed, htrace, hs⟩
  | cons f fs ih =>
    have hpush : c.pushFilter f = (none, { c with filters := f :: c.filters, states := (f.init, c.states) }) := by
      unfold FilterChain.pushFilter
      simp only [hwritten, hclosed, Bool.false_eq_true, if_false]
    have hnext : Seen (f :: c.filters) (f.init, c.states) c.world [] :=
      ⟨by rw [htrace]; rfl, [], rfl, hs⟩
    obtain ⟨c', hrun, hfilters, hrest⟩ := ih
      (c := { c with filters := f :: c.filters, states := (f.init, c.states) }) hwritten hclosed htrace hnext
    refine ⟨c', ?_, ?_, hrest⟩
    · rw [List.map_cons, run, step, hpush, hrun]
      rfl
    · rw [hfilters, List.reverse_cons, List.append_assoc]
      rfl

/-- Writes that no stage objects to. -/
theorem run_write {writes : List Bytes} (rest given : List Bytes) {c : FilterChain S} (hclosed : c.closed = false)
    (htakes : Takes S c.filters writes) (hbegin : given ++ rest <+: writes) (hs : Seen c.filters c.states c.world given) :
    ∃ c', c.run (rest.map .write) = (rest.map fun _ => none, c') ∧ c'.filters = c.filters ∧ c'.closed = false ∧
      Grows c.filters.length c.world c'.world ∧ Seen c'.filters c'.states c'.world (given ++ rest) := by
  induction rest generalizing given c with
  | nil => exact ⟨c, rfl, rfl, hclosed, Grows.refl _ _, by rwa [List.append_nil]⟩
  | cons buffer rest ih =>
    have hnext : given ++ [buffer] <+: writes := by
      refine List.IsPrefix.trans ?_ hbegin
      exact ⟨rest, by simp⟩
    obtain ⟨s', hwrite, hseen⟩ := stageWrite_seen htakes hnext hs
    have hgrows := ends_of_ok (stageWrite_grows c.filters buffer (c.states, c.world)) hwrite
    have hstep : c.write buffer = (none, { c with dataWritten := true, states := s'.1, world := s'.2 }) := by
      unfold FilterChain.write
      rw [if_neg (by simp [hclosed]), hwrite]
      rfl
    obtain ⟨c', hrun, hfilters, hopen, hgrows', hseen'⟩ := ih (given ++ [buffer])
      (c := { c with dataWritten := true, states := s'.1, world := s'.2 }) hclosed htakes (by simpa using hbegin) hseen
    refine ⟨c', ?_, hfilters, hopen, hgrows.trans hgrows', by simpa using hseen'⟩
    rw [List.map_cons, run, step, hstep, hrun]
    rfl

/-- Unless a stage raises, the sink gets what the filters come to, the one pushed last first, and so does every stage get
what the filters above it come to; then the stages are closed one after the other, and what one emits at its close goes
down before the next is closed.  Whatever is called and whatever raises, no stage is closed twice. -/
theorem composes (S : Sink) (pushed : List Filter) :
    (∀ writes out last final, composition pushed.reverse writes = some out →
      writeEach S.write out S.init = .ok () last → S.close last = .ok () final →
      ∃ c t t', (new S).run (pushed.map .pushFilter ++ writes.map .write ++ [.close]) =
          (List.replicate (pushed.length + writes.length + 1) none, c) ∧
        c.closed = true ∧ c.destroy = c ∧ c.world.sink = final ∧ writesTo 0 c.world.trace = out ∧
        (∀ k ≤ pushed.length,
          composition (pushed.reverse.take k) writes = some (writesTo (pushed.length - k) c.world.trace)) ∧
        c.world.trace = t ++ t' ∧ WritesUpTo pushed.length t ∧ Closing pushed.length t' ∧
        closes c.world.trace = (List.range (pushed.length + 1)).reverse) ∧
    ∀ ops : List Op, let c := ((new S).run ops).2.destroy
      closes c.world.trace <+: (List.range (c.filters.length + 1)).reverse ∧ (closes c.world.trace).Nodup := by
  refine ⟨fun writes out last final hout hwrite hclose => ?_, fun ops => ?_⟩
  -- the filters are pushed, then written to, then closed
  · obtain ⟨c₁, hrun₁, hfilters₁, hopen₁, htrace₁, hseen₁⟩ := run_pushFilter pushed (c := new S) rfl rfl rfl ⟨rfl, rfl⟩
    have hpushed : c₁.filters = pushed.reverse := hfilters₁.trans (List.append_nil _)
    have htakes : Takes S c₁.filters writes := ⟨out, last, hpushed ▸ hout, hwrite⟩
    obtain ⟨c₂, hrun₂, hfilters₂, hopen₂, ⟨t, ht, hwrites⟩, hseen₂⟩ :=
      run_write writes [] hopen₁ htakes (List.prefix_refl _) hseen₁
    have hstack : c₂.filters = pushed.reverse := hfilters₂.trans hpushed
    have hlength : c₂.filters.length = pushed.length := by rw [hstack, List.length_reverse]
    obtain ⟨s', t', hloop, hfinal, htrace, hclosing, hstages⟩ :=
      stagesClose_seen (by rw [hstack]; exact hout) hwrite hclose hseen₂
    have hstep : c₂.close = (none, { c₂ with closed := true, states := s'.1, world := s'.2 }) := by
      unfold FilterChain.close
      rw [if_neg (by simp [hopen₂]), hloop]
      rfl
    rw [hlength] at hclosing hstages
    rw [hpushed, List.length_reverse] at hwrites
    rw [htrace₁, List.nil_append] at ht
    have hstages' : ∀ k ≤ pushed.length,
        composition (pushed.reverse.take k) writes = some (writesTo (pushed.length - k) s'.2.trace) := by
      intro k hk
      rw [← hstack]
      exact hstages k hk
    have hcloses : closes s'.2.trace = (List.range (pushed.length + 1)).reverse := by
      rw [htrace, ht, closes_append, hwrites.closes, List.nil_append, hclosing.closes]
    -- below all filters stands the sink
    have hsink := hstages' pushed.length (Nat.le_refl _)
    rw [List.take_of_length_le (by rw [List.length_reverse]), hout, Nat.sub_self, Option.some_inj] at hsink
    refine ⟨{ c₂ with closed := true, states := s'.1, world := s'.2 }, t, t', ?_, rfl, rfl, hfinal,
      hsink.symm, hstages', htrace.trans (by rw [ht]), hwrites, hclosing, hcloses⟩
    have hlast : c₂.run [.close] =
        (List.replicate 1 none, { c₂ with closed := true, states := s'.1, world := s'.2 }) := by
      rw [run, step, hstep]
      rfl
    rw [run_append, run_append, hrun₁, hrun₂, hlast, List.map_const', List.map_const', List.replicate_append_replicate,
      List.replicate_append_replicate]
  · have hordered := (((ordered_new S).run ops).destroy)
    exact ⟨hordered.1, hordered.nodup⟩

end FilterChain

/-! ### Sinks and filters -/

/-- `NullFilter`. -/
def nullFilter : Filter where
  State := Unit
  init := ()
  write _ buffer := .emit buffer fun
    | none => .done ()
    | some e => .raise e ()
  close _ := .done ()

/-- `BackInsertingSink`. -/
def backInsertingSink : Sink where
  State := Bytes
  init := []
  write buffer := modify fun container => container ++ buffer
  close := pure ()

variable {P : StreamPlatform}

def DecryptingFilter.filter (cipher : P.Cipher) : Filter where
  State := DecryptingFilter P
  init := { cipher := cipher }
  write f data := (f.write data).toCall
  close f := f.close.toCall

namespace FilterChain

/-- A block with its tag through a filter that decrypts: the last byte of the text comes with the close. -/
theorem composes_summing :
    composition [DecryptingFilter.filter (P := .summing) (0 : UInt8), nullFilter] [[1, 2], [], [3, 6]] =
        some [[1, 2], [3]] ∧
      ∃ c : FilterChain backInsertingSink, c.closed = true ∧ c.world.sink = [1, 2, 3] ∧
        closes c.world.trace = [2, 1, 0] := by
  have hout : composition [nullFilter, DecryptingFilter.filter (P := .summing) (0 : UInt8)].reverse [[1, 2], [], [3, 6]] =
      some [[1, 2], [3]] := by rfl
  obtain ⟨c, -, -, -, hclosed, -, hsink, -, -, -, -, -, hcloses⟩ :=
    (composes backInsertingSink [nullFilter, DecryptingFilter.filter (P := .summing) (0 : UInt8)]).1
      [[1, 2], [], [3, 6]] [[1, 2], [3]] [1, 2, 3] [1, 2, 3] hout rfl rfl
  exact ⟨hout, c, hclosed, hsink, hcloses⟩

end FilterChain

end KulloClient

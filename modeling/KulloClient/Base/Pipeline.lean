import KulloClient.Base.Imperative

/-!
# Filters that write to a sink

A filter that is written to, or closed, hands chunks to its sink, one after the other, and any of these writes may
raise.  `Emission` records such a call without the sink: the chunks, what state the filter is in while the sink takes
each of them, and how the call ends if the sink takes them all.  `pipe` puts one filter behind another, and `feed` runs
an emission against a sink.
-/

namespace Pipeline

open Imperative

variable {ε β σ F G : Type}

structure Emission (ε β F : Type) where
  chunks : List (β × F)
  raised : Option ε
  state : F

namespace Emission

def done (f : F) : Emission ε β F := ⟨[], none, f⟩

def fail (e : ε) (f : F) : Emission ε β F := ⟨[], some e, f⟩

def map (k : F → G) (e : Emission ε β F) : Emission ε β G :=
  ⟨e.chunks.map fun c => (c.1, k c.2), e.raised, k e.state⟩

/-- What the sink is given. -/
def output (e : Emission ε β F) : List β := e.chunks.map Prod.fst

/-- One call after the other, if the first raises nothing. -/
def andThen (e : Emission ε β F) (k : F → Emission ε β F) : Emission ε β F :=
  match e.raised with
  | some _ => e
  | none => ⟨e.chunks ++ (k e.state).chunks, (k e.state).raised, (k e.state).state⟩

@[simp] theorem done_andThen (f : F) (k : F → Emission ε β F) : (done f : Emission ε β F).andThen k = k f := rfl

theorem andThen_assoc (e : Emission ε β F) (k l : F → Emission ε β F) :
    (e.andThen k).andThen l = e.andThen fun f => (k f).andThen l := by
  obtain ⟨chunks, raised, f⟩ := e
  cases raised with
  | some x => rfl
  | none =>
    unfold andThen
    cases h : (k f).raised <;> simp [h]

theorem state_andThen (e : Emission ε β F) (k : F → Emission ε β F) :
    (e.andThen k).state = if e.raised = none then (k e.state).state else e.state := by
  unfold andThen
  cases e.raised <;> rfl

/-- The chunks go through a second filter, whose exceptions end the call. -/
def pipeFrom (write : G → β → Emission ε β G) (raised : Option ε) (f : F) : List (β × F) → G → Emission ε β (F × G)
  | [], g => ⟨[], raised, (f, g)⟩
  | (b, f') :: rest, g =>
    let e := write g b
    let chunks := e.chunks.map fun c => (c.1, (f', c.2))
    match e.raised with
    | some x => ⟨chunks, some x, (f', e.state)⟩
    | none =>
      let e' := pipeFrom write raised f rest e.state
      ⟨chunks ++ e'.chunks, e'.raised, e'.state⟩

def pipe (e : Emission ε β F) (write : G → β → Emission ε β G) (g : G) : Emission ε β (F × G) :=
  pipeFrom write e.raised e.state e.chunks g

end Emission

/-! ### Running against a sink -/

/-- How a call ends: the exception, if any, with the states of filter and sink. -/
structure Fed (ε F σ : Type) where
  raised : Option ε
  filter : F
  sink : σ

def feedChunks (write : β → EStateM ε σ Unit) (raised : Option ε) (f : F) : List (β × F) → σ → Fed ε F σ
  | [], s => ⟨raised, f, s⟩
  | (b, f') :: rest, s =>
    match write b s with
    | .ok _ s' => feedChunks write raised f rest s'
    | .error e s' => ⟨some e, f', s'⟩

def feed (write : β → EStateM ε σ Unit) (e : Emission ε β F) (s : σ) : Fed ε F σ :=
  feedChunks write e.raised e.state e.chunks s

/-- An emission against a sink that tracks what it has been given: the sink takes everything and is in a state fit for
that, or it raised on the way. -/
theorem feed_induction {write : β → EStateM ε σ Unit} {e : Emission ε β F} {given : List β} {s : σ}
    {I : List β → σ → Prop} {H : σ → Prop} (hs : I given s)
    (hstep : ∀ before b s, before ++ [b] <+: given ++ e.output → I before s →
      Ends (write b) s (fun _ s' => I (before ++ [b]) s') (fun _ s' => H s')) :
    (feed write e s = ⟨e.raised, e.state, (feed write e s).sink⟩ ∧ I (given ++ e.output) (feed write e s).sink) ∨
      ((feed write e s).raised ≠ none ∧ H (feed write e s).sink) := by
  obtain ⟨chunks, raised, f⟩ := e
  unfold feed
  unfold Emission.output at *
  dsimp only at *
  induction chunks generalizing given s with
  | nil => exact .inl ⟨rfl, by simpa [feedChunks] using hs⟩
  | cons c rest ih =>
    obtain ⟨b, f'⟩ := c
    have hb := hstep given b s (by simp) hs
    unfold feedChunks
    cases hw : write b s with
    | ok u s' =>
      have hs' := ends_of_ok hb hw
      have hrest := ih hs' (by simpa using hstep)
      simpa using hrest
    | error x s' =>
      exact .inr ⟨by simp, ends_of_error hb hw⟩

/-- A property of the sink that every write keeps, whether it raises or not. -/
theorem feed_keeps {write : β → EStateM ε σ Unit} {I : σ → Prop} (e : Emission ε β F) {s : σ} (hs : I s)
    (hstep : ∀ b s, I s → Ends (write b) s (fun _ s' => I s') (fun _ s' => I s')) : I (feed write e s).sink := by
  obtain ⟨chunks, raised, f⟩ := e
  unfold feed
  dsimp only
  induction chunks generalizing s with
  | nil => exact hs
  | cons c rest ih =>
    obtain ⟨b, f'⟩ := c
    have hb := hstep b s hs
    unfold feedChunks
    cases hw : write b s with
    | ok u s' => exact ih (ends_of_ok hb hw)
    | error x s' => exact ends_of_error hb hw

/-! ### Calls that see how the sink took a chunk -/

/-- A call that goes on as it likes when the sink has taken a chunk, or has raised instead. -/
inductive Call (ε β F : Type)
  | done (f : F)
  | raise (e : ε) (f : F)
  | emit (b : β) (k : Option ε → Call ε β F)

namespace Call

def run (write : β → EStateM ε σ Unit) : Call ε β F → σ → Fed ε F σ
  | done f, s => ⟨none, f, s⟩
  | raise e f, s => ⟨some e, f, s⟩
  | emit b k, s =>
    match write b s with
    | .ok _ s' => (k none).run write s'
    | .error e s' => (k (some e)).run write s'

/-- The chunks, if the sink takes them all. -/
def output : Call ε β F → List β
  | done _ => []
  | raise _ _ => []
  | emit b k => b :: (k none).output

/-- How the call ends, if the sink takes everything. -/
def outcome : Call ε β F → Except ε F
  | done f => .ok f
  | raise e _ => .error e
  | emit _ k => (k none).outcome

/-- A call without an exception of its own, against a sink that takes what it is given. -/
theorem run_induction {write : β → EStateM ε σ Unit} {c : Call ε β F} {f : F} {given : List β} {s : σ}
    {I : List β → σ → Prop} (hc : c.outcome = .ok f) (hs : I given s)
    (hstep : ∀ before b s, before ++ [b] <+: given ++ c.output → I before s →
      ∃ s', write b s = .ok () s' ∧ I (before ++ [b]) s') :
    ∃ s', c.run write s = ⟨none, f, s'⟩ ∧ I (given ++ c.output) s' := by
  induction c generalizing given s with
  | done f' =>
    cases hc
    exact ⟨s, rfl, by simpa [output] using hs⟩
  | raise e f' => cases hc
  | emit b k ih =>
    obtain ⟨s', hw, hs'⟩ := hstep given b s (by simp [output]) hs
    obtain ⟨s'', hrun, hs''⟩ := ih none hc hs' (by simpa [output] using hstep)
    refine ⟨s'', ?_, by simpa [output] using hs''⟩
    rw [run, hw]
    exact hrun

/-- How every write moves the sink, whether it raises or not, any call moves it. -/
theorem run_moves {write : β → EStateM ε σ Unit} {R : σ → σ → Prop} (hrefl : ∀ s, R s s)
    (htrans : ∀ s t u, R s t → R t u → R s u) (hstep : ∀ b s, Ends (write b) s (fun _ s' => R s s') (fun _ s' => R s s'))
    (c : Call ε β F) (s : σ) : R s (c.run write s).sink := by
  induction c generalizing s with
  | done f => exact hrefl s
  | raise e f => exact hrefl s
  | emit b k ih =>
    have hb := hstep b s
    rw [run]
    cases hw : write b s with
    | ok u s' =>
      have hmove := ends_of_ok hb hw
      exact htrans _ _ _ hmove (ih none s')
    | error e s' =>
      have hmove := ends_of_error hb hw
      exact htrans _ _ _ hmove (ih (some e) s')

end Call

/-- A call that raises what the sink raises. -/
def Emission.toCall (e : Emission ε β F) : Call ε β F :=
  e.chunks.foldr (fun c rest => .emit c.1 fun | none => rest | some x => .raise x c.2)
    (match e.raised with | none => .done e.state | some x => .raise x e.state)

/-- A list of chunks, one after the other. -/
def writeEach (write : β → EStateM ε σ Unit) : List β → EStateM ε σ Unit
  | [] => pure ()
  | b :: rest => do
    write b
    writeEach write rest

theorem writeEach_append (write : β → EStateM ε σ Unit) (before after : List β) (s : σ) :
    writeEach write (before ++ after) s = (writeEach write before >>= fun _ => writeEach write after) s := by
  induction before generalizing s with
  | nil => rfl
  | cons b rest ih =>
    rw [List.cons_append, writeEach, writeEach, bind_apply, bind_apply, bind_apply]
    cases write b s with
    | ok u s' => exact ih s'
    | error x s' => rfl

theorem writeEach_append_eq_ok {write : β → EStateM ε σ Unit} {before after : List β} {s u : σ}
    (h : writeEach write (before ++ after) s = .ok () u) :
    ∃ t, writeEach write before s = .ok () t ∧ writeEach write after t = .ok () u := by
  rw [writeEach_append, bind_apply] at h
  cases hb : writeEach write before s with
  | ok v t =>
    rw [hb] at h
    exact ⟨t, rfl, h⟩
  | error e t =>
    rw [hb] at h
    cases h

/-- One chunk more. -/
theorem writeEach_concat {write : β → EStateM ε σ Unit} {before after : List β} {b : β} {s t u : σ}
    (h : writeEach write (before ++ [b] ++ after) s = .ok () u) (ht : writeEach write before s = .ok () t) :
    ∃ t', write b t = .ok () t' ∧ writeEach write (before ++ [b]) s = .ok () t' := by
  rw [List.append_assoc] at h
  obtain ⟨t', ht', hrest⟩ := writeEach_append_eq_ok h
  rw [ht] at ht'
  cases ht'
  rw [List.singleton_append, writeEach, bind_apply] at hrest
  cases hw : write b t with
  | error e s' =>
    rw [hw] at hrest
    cases hrest
  | ok v s' =>
    refine ⟨s', rfl, ?_⟩
    rw [writeEach_append, bind_of_ok ht, writeEach, bind_of_ok hw]
    rfl

end Pipeline

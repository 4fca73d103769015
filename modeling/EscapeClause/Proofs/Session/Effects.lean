import EscapeClause.Proofs.Session.History

/-! A client by its effects. Outside of itself a client has statements translated, gives
texts to its engine and reports events, and here these are operations of any monad. Main
statements: with the operations that translate, call the engine and keep the events this
is the client as it is, and a closed client has no effect in any monad. -/

namespace EscapeClause

structure Effects (m : Type → Type) (γ : Type) where
  translate : String → Bool → m (Except StatementError NativeText)
  prepare : String → m (Except String γ)
  report : Event → m Unit

/-- A client without its engine. -/
structure Front where
  config : Config
  isClosed : Bool
  statements : List Statement
  deriving DecidableEq, Repr

def Client.front {σ γ : Type} (c : Client σ γ) : Front :=
  ⟨c.session.config, c.session.isClosed, c.statements⟩

namespace Effects

variable {m : Type → Type} [Monad m] {γ : Type} (fx : Effects m γ)

def process (sql : String) (b : Bool) : m (Except SessionError String) := do
  match ← fx.translate sql b with
  | .ok t =>
    fx.report (.processed sql t.text)
    return .ok t.text
  | .error e =>
    fx.report (.unprocessed sql e)
    return .error (.statement sql e)

def submit (sql : String) (b : Bool) : m (Except SessionError (Prepared γ)) := do
  match ← fx.process sql b with
  | .error e => return .error e
  | .ok native =>
    match ← fx.prepare native with
    | .error reason =>
      fx.report (.rejected native reason)
      return .error (.rejected reason)
    | .ok command => return .ok ⟨native, command, b && opensWithBinding sql.toList⟩

/-- What an open session does, and a closed one refuses. -/
def ifOpen {α : Type} (f : Front) (reply : α → Reply γ) (act : m (Except SessionError α)) :
    m (Reply γ × Front) := do
  if f.isClosed then return (.failed .closed, f)
  match ← act with
  | .ok a => return (reply a, f)
  | .error e => return (.failed e, f)

def step (f : Front) : Request → m (Reply γ × Front)
  | .nativeSql sql => ifOpen f .native (fx.process sql true)
  | .prepareStatement sql => ifOpen f .prepared (fx.submit sql true)
  | .prepareCall sql => ifOpen f .prepared (fx.submit sql true)
  | .createStatement =>
    if f.isClosed then return (.failed .closed, f)
    else
      return (.created f.statements.length f.config.escapeProcessing,
        { f with statements := f.statements ++ [⟨f.config.escapeProcessing⟩] })
  | .escapeProcessing i =>
    match f.statements[i]? with
    | some h => return (.setting h.escapeProcessing, f)
    | none => return (.noStatement, f)
  | .setEscapeProcessing i b =>
    match f.statements[i]? with
    | some _ => return (.setting b, { f with statements := f.statements.set i ⟨b⟩ })
    | none => return (.noStatement, f)
  | .prepare i sql =>
    match f.statements[i]? with
    | some h => ifOpen f .prepared (fx.submit sql h.escapeProcessing)
    | none => return (.noStatement, f)
  | .close => do
    if f.isClosed then return (.done, f)
    fx.report .closed
    return (.done, { f with isClosed := true })

/-- The replies to some requests, with what is behind them. -/
def run (f : Front) : List Request → m (List (Reply γ) × Front)
  | [] => return ([], f)
  | r :: rs => do
    let (reply, f) ← fx.step f r
    let (replies, f) ← run f rs
    return (reply :: replies, f)

theorem exists_step_eq_pure {f : Front} (h : f.isClosed = true) (r : Request) :
    ∃ reply f', fx.step f r = pure (reply, f') ∧ f'.isClosed = true := by
  cases r with
  | nativeSql sql => exact ⟨_, _, if_pos h, h⟩
  | prepareStatement sql => exact ⟨_, _, if_pos h, h⟩
  | prepareCall sql => exact ⟨_, _, if_pos h, h⟩
  | createStatement => exact ⟨_, _, if_pos h, h⟩
  | close => exact ⟨_, _, if_pos h, h⟩
  | escapeProcessing i =>
    rw [step]
    split
    · exact ⟨_, _, rfl, h⟩
    · exact ⟨_, _, rfl, h⟩
  | setEscapeProcessing i b =>
    rw [step]
    split
    · exact ⟨_, _, rfl, h⟩
    · exact ⟨_, _, rfl, h⟩
  | prepare i sql =>
    rw [step]
    split
    · exact ⟨_, _, if_pos h, h⟩
    · exact ⟨_, _, rfl, h⟩

/-- Behind a close nothing is translated, given to the engine or reported. -/
theorem exists_run_eq_pure [LawfulMonad m] {f : Front} (h : f.isClosed = true)
    (rs : List Request) : ∃ answer, fx.run f rs = pure answer := by
  induction rs generalizing f with
  | nil => exact ⟨_, rfl⟩
  | cons r rs ih =>
    obtain ⟨reply, f', hs, hf⟩ := fx.exists_step_eq_pure h r
    obtain ⟨⟨replies, f''⟩, hr⟩ := ih hf
    refine ⟨(reply :: replies, f''), ?_⟩
    rw [run, hs, pure_bind]
    simp only [hr, pure_bind]

end Effects

namespace Engine

variable {σ γ : Type}

/-- Translation as it is, the engine with its state, and the events in order. -/
def effects (e : Engine σ γ) : Effects (StateM (σ × List Event)) γ where
  translate sql b := pure (nativeText sql b)
  prepare text := fun w => pure ((e.prepare w.1 text).1, (e.prepare w.1 text).2, w.2)
  report event := fun w => pure ((), w.1, w.2 ++ [event])

variable (e : Engine σ γ) (state : σ) (events : List Event)

@[simp] theorem run_translate (sql : String) (b : Bool) :
    (e.effects.translate sql b).run (state, events) = pure (nativeText sql b, state, events) :=
  rfl

@[simp] theorem run_prepare (text : String) :
    (e.effects.prepare text).run (state, events) =
      pure ((e.prepare state text).1, (e.prepare state text).2, events) :=
  rfl

@[simp] theorem run_report (event : Event) :
    (e.effects.report event).run (state, events) = pure ((), state, events ++ [event]) :=
  rfl

@[simp] theorem run_process (sql : String) (b : Bool) :
    (e.effects.process sql b).run (state, events) =
      pure ((Session.process sql b).1, state, events ++ (Session.process sql b).2) := by
  rw [Effects.process, Session.process]
  cases ht : nativeText sql b <;> simp [ht]

end Engine

namespace Client

variable {σ γ : Type}

/-- What a client does in a turn, by its effects on the engine and on the events so far. -/
theorem effects_submission (c : Client σ γ) (sql : String) (b : Bool) (events : List Event) :
    (Effects.ifOpen c.front .prepared (c.session.engine.effects.submit sql b)).run
        (c.session.state, events) =
      let t := c.turn .prepared (c.session.submit sql b)
      pure ((t.reply, t.client.front), t.client.session.state, events ++ t.events) := by
  cases hc : c.session.isClosed with
  | true => simp [Effects.ifOpen, front, hc, Session.submit, turn]
  | false =>
    rcases ht : Session.process sql b with ⟨e | text, reported⟩
    · simp [Effects.ifOpen, Effects.submit, front, hc, Session.submit, turn, ht]
    · rcases hp : c.session.engine.prepare c.session.state text with ⟨reason | command, state⟩
      all_goals simp [Effects.ifOpen, Effects.submit, front, hc, Session.submit, turn, ht, hp]

theorem effects_nativeSql (c : Client σ γ) (sql : String) (events : List Event) :
    (Effects.ifOpen c.front .native (c.session.engine.effects.process sql true)).run
        (c.session.state, events) =
      let t := c.turn .native (c.session.nativeSql sql)
      pure ((t.reply, t.client.front), t.client.session.state, events ++ t.events) := by
  cases hc : c.session.isClosed with
  | true => simp [Effects.ifOpen, front, hc, Session.nativeSql, turn]
  | false =>
    rcases ht : Session.process sql true with ⟨e | text, reported⟩
    all_goals simp [Effects.ifOpen, front, hc, Session.nativeSql, turn, ht]

theorem effects_step (c : Client σ γ) (r : Request) (events : List Event) :
    (c.session.engine.effects.step c.front r).run (c.session.state, events) =
      pure (((c.step r).reply, (c.step r).client.front),
        (c.step r).client.session.state, events ++ (c.step r).events) := by
  cases r with
  | nativeSql sql => exact c.effects_nativeSql sql events
  | prepareStatement sql => exact c.effects_submission sql true events
  | prepareCall sql => exact c.effects_submission sql true events
  | prepare i sql =>
    rw [Effects.step, step]
    cases hi : c.statements[i]? with
    | some h =>
      simp only [front, hi]
      exact c.effects_submission sql h.escapeProcessing events
    | none => simp [front, hi]
  | createStatement =>
    rw [Effects.step, step, create, Session.createStatement]
    cases hc : c.session.isClosed <;> simp [front, hc]
  | escapeProcessing i =>
    rw [Effects.step, step]
    cases hi : c.statements[i]? <;> simp [front, hi]
  | setEscapeProcessing i b =>
    rw [Effects.step, step]
    cases hi : c.statements[i]? <;> simp [front, hi]
  | close =>
    rw [Effects.step, step, Session.close]
    cases hc : c.session.isClosed <;> simp [front, turn, hc]

theorem effects_run (c : Client σ γ) (rs : List Request) (events : List Event) :
    (c.session.engine.effects.run c.front rs).run (c.session.state, events) =
      pure (((c.turns rs).map Turn.reply, (c.run rs).front),
        (c.run rs).session.state, events ++ (c.turns rs).flatMap Turn.events) := by
  induction rs generalizing c events with
  | nil => simp [Effects.run, turns]
  | cons r rs ih =>
    have hengine : (c.step r).client.session.engine = c.session.engine := by
      rw [(c.serves_step r).session_eq]
    have hih := ih (c.step r).client (events ++ (c.step r).events)
    rw [hengine] at hih
    rw [Effects.run, StateT.run_bind, effects_step, pure_bind, StateT.run_bind, hih]
    simp [turns]

end Client

end EscapeClause

import EscapeClause.Session.Basic

/-! A client holds a session and the statements it has created, by number from zero, and
makes requests one after the other. Every request has a reply. -/

namespace EscapeClause

structure Client (σ γ : Type) where
  session : Session σ γ
  statements : List Statement := []

inductive Request where
  | nativeSql (sql : String)
  | prepareStatement (sql : String)
  | prepareCall (sql : String)
  | createStatement
  | escapeProcessing (statement : Nat)
  | setEscapeProcessing (statement : Nat) (enabled : Bool)
  | prepare (statement : Nat) (sql : String)
  | close
  deriving DecidableEq, Repr

inductive Reply (γ : Type) where
  | native (text : String)
  | prepared (p : Prepared γ)
  | created (statement : Nat) (escapeProcessing : Bool)
  | setting (escapeProcessing : Bool)
  | done
  | failed (e : SessionError)
  | noStatement
  deriving DecidableEq, Repr

/-- The reply to a request, with the client behind it and the events in order. -/
structure Turn (σ γ : Type) where
  reply : Reply γ
  client : Client σ γ
  events : List Event

namespace Client

variable {σ γ : Type}

/-- The turn that an outcome of the session makes, if the statements stay as they are. -/
def turn {α : Type} (c : Client σ γ) (reply : α → Reply γ) (o : Outcome σ γ α) : Turn σ γ :=
  match o.result with
  | .ok a => ⟨reply a, { c with session := o.session }, o.events⟩
  | .error e => ⟨.failed e, { c with session := o.session }, o.events⟩

def create (c : Client σ γ) : Turn σ γ :=
  let o := c.session.createStatement
  match o.result with
  | .ok h =>
    ⟨.created c.statements.length h.escapeProcessing, ⟨o.session, c.statements ++ [h]⟩, o.events⟩
  | .error e => ⟨.failed e, { c with session := o.session }, o.events⟩

def step (c : Client σ γ) : Request → Turn σ γ
  | .nativeSql sql => c.turn .native (c.session.nativeSql sql)
  | .prepareStatement sql => c.turn .prepared (c.session.prepareStatement sql)
  | .prepareCall sql => c.turn .prepared (c.session.prepareCall sql)
  | .createStatement => c.create
  | .escapeProcessing i =>
    match c.statements[i]? with
    | some h => ⟨.setting h.escapeProcessing, c, []⟩
    | none => ⟨.noStatement, c, []⟩
  | .setEscapeProcessing i enabled =>
    match c.statements[i]? with
    | some _ => ⟨.setting enabled, { c with statements := c.statements.set i ⟨enabled⟩ }, []⟩
    | none => ⟨.noStatement, c, []⟩
  | .prepare i sql =>
    match c.statements[i]? with
    | some h => c.turn .prepared (h.prepare c.session sql)
    | none => ⟨.noStatement, c, []⟩
  | .close => c.turn (fun _ => .done) c.session.close

/-- The client behind a sequence of requests. -/
def run (c : Client σ γ) (requests : List Request) : Client σ γ :=
  requests.foldl (fun c r => (c.step r).client) c

/-- The turns of a sequence of requests. -/
def turns (c : Client σ γ) : List Request → List (Turn σ γ)
  | [] => []
  | r :: rs => c.step r :: (c.step r).client.turns rs

@[simp] theorem run_nil (c : Client σ γ) : c.run [] = c := rfl

@[simp] theorem run_cons (c : Client σ γ) (r : Request) (rs : List Request) :
    c.run (r :: rs) = (c.step r).client.run rs := rfl

theorem run_append (c : Client σ γ) (rs ts : List Request) :
    c.run (rs ++ ts) = (c.run rs).run ts := List.foldl_append

theorem length_turns (c : Client σ γ) (rs : List Request) : (c.turns rs).length = rs.length := by
  induction rs generalizing c with
  | nil => rfl
  | cons r rs ih => simp [turns, ih]

end Client

end EscapeClause

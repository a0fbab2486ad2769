import LiveQuery.Execution.Executor
import Mathlib.Data.List.Forall2

set_option autoImplicit false

namespace LiveQuery

/-- A reading statement that was sent to a store, and its answer. -/
structure Exchange where
  statement : Sql.Statement
  answer : Except String (List Record)

variable {σ α β : Type}

/-- The store with a record of all that was read from it. -/
def Connector.recorded (connector : Connector σ) : Connector (σ × List Exchange) where
  read statement := fun (state, log) =>
    match connector.read statement state with
    | .ok rows after => .ok rows (after, log ++ [⟨statement, .ok rows⟩])
    | .error text after => .error text (after, log ++ [⟨statement, .error text⟩])
  write statement := fun (state, log) =>
    match connector.write statement state with
    | .ok number after => .ok number (after, log)
    | .error text after => .error text (after, log)

def Executor.recorded (executor : Executor σ) : Executor (σ × List Exchange) :=
  { executor with connector := executor.connector.recorded }

namespace Session

/-- Two sessions end alike, the second of them with a record of what it sent. If they succeed, then
the value and what was sent for it are as stated. -/
def Records (plain : Session σ α) (logged : Session (σ × List Exchange) α)
    (sends : α → List Exchange → Prop) : Prop :=
  ∀ state log,
    match plain state with
    | .ok value after =>
      ∃ sent, logged (state, log) = .ok value (after, log ++ sent) ∧ sends value sent
    | .error error after => ∃ sent, logged (state, log) = .error error (after, log ++ sent)

variable {plain : Session σ α} {logged : Session (σ × List Exchange) α}
  {sends : α → List Exchange → Prop}

/-- What a session that succeeds sent, and that it succeeds when its round trips are recorded. -/
theorem Records.of_ok (records : Records plain logged sends) {state after : σ} {value : α}
    (ran : plain state = .ok value after) :
    ∃ sent, logged (state, []) = .ok value (after, sent) ∧ sends value sent := by
  have recorded := records state []
  simp only [ran, List.nil_append] at recorded
  exact recorded

theorem Records.imp {sends' : α → List Exchange → Prop} (records : Records plain logged sends)
    (implies : ∀ value sent, sends value sent → sends' value sent) :
    Records plain logged sends' := by
  intro state log
  have recorded := records state log
  cases ran : plain state with
  | ok value after =>
    simp only [ran] at recorded ⊢
    obtain ⟨sent, logs, stated⟩ := recorded
    exact ⟨sent, logs, implies value sent stated⟩
  | error error after =>
    simp only [ran] at recorded ⊢
    exact recorded

theorem Records.pure {value : α} (stated : sends value []) :
    Records (pure value : Session σ α) (pure value) sends := by
  intro state log
  exact ⟨[], by rw [List.append_nil]; rfl, stated⟩

theorem Records.throw (error : ExecutionError) :
    Records (throw error : Session σ α) (throw error) sends := by
  intro state log
  exact ⟨[], by rw [List.append_nil]; rfl⟩

theorem Records.bind {next : α → Session σ β} {next' : α → Session (σ × List Exchange) β}
    {sends' : β → List Exchange → Prop} (first : Records plain logged sends)
    (behind : ∀ value sent, sends value sent →
      Records (next value) (next' value) fun result more => sends' result (sent ++ more)) :
    Records (plain >>= next) (logged >>= next') sends' := by
  intro state log
  have recorded := first state log
  simp only [Bind.bind, EStateM.bind]
  cases ran : plain state with
  | ok value between =>
    simp only [ran] at recorded ⊢
    obtain ⟨sent, logs, stated⟩ := recorded
    have recorded := behind value sent stated between (log ++ sent)
    cases went : next value between with
    | ok result after =>
      simp only [went, logs, List.append_assoc] at recorded ⊢
      obtain ⟨more, logs', stated'⟩ := recorded
      exact ⟨sent ++ more, logs', stated'⟩
    | error error after =>
      simp only [went, logs, List.append_assoc] at recorded ⊢
      obtain ⟨more, logs'⟩ := recorded
      exact ⟨sent ++ more, logs'⟩
  | error error between =>
    simp only [ran] at recorded ⊢
    obtain ⟨sent, logs⟩ := recorded
    exact ⟨sent, by rw [logs]⟩

/-- Steps that send nothing, one after the other. -/
theorem Records.mapM {step : α → Session σ β} {step' : α → Session (σ × List Exchange) β}
    {R : α → β → Prop} (each : ∀ item,
      Records (step item) (step' item) fun result sent => R item result ∧ sent = [])
    (items : List α) :
    Records (items.mapM step) (items.mapM step') fun results sent =>
      List.Forall₂ R items results ∧ sent = [] := by
  induction items with
  | nil => exact .pure ⟨.nil, rfl⟩
  | cons item rest ih =>
    simp only [List.mapM_cons]
    refine (each item).bind fun result _ first => ih.bind fun results _ later => .pure ?_
    rw [first.2, later.2]
    exact ⟨.cons first.1 later.1, rfl⟩

theorem Records.sql (attempt : Except Sql.Error α) :
    Records (liftM attempt : Session σ α) (liftM attempt) fun value sent =>
      attempt = .ok value ∧ sent = [] := by
  cases attempt with
  | ok value => exact .pure ⟨rfl, rfl⟩
  | error error => exact .throw (.sql error)

theorem Records.statement (attempt : Except StatementError α) :
    Records (liftM attempt : Session σ α) (liftM attempt) fun value sent =>
      attempt = .ok value ∧ sent = [] := by
  cases attempt with
  | ok value => exact .pure ⟨rfl, rfl⟩
  | error error => exact .throw (.sql (.statement error))

theorem Records.read (connector : Connector σ) (statement : Sql.Statement) :
    Records (liftM (connector.read statement) : Session σ (List Record))
      (liftM (connector.recorded.read statement)) fun rows sent =>
        sent = [⟨statement, .ok rows⟩] := by
  intro state log
  simp only [liftM, monadLift, MonadLift.monadLift, Connector.recorded]
  cases connector.read statement state with
  | ok rows after => exact ⟨_, rfl, rfl⟩
  | error text after => exact ⟨_, rfl⟩

end Session

end LiveQuery

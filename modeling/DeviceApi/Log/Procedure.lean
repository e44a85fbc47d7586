import DeviceApi.Document.Edit
import DeviceApi.Log.Record

/-!
# Procedures

A procedure is an edit that also reports. Changes and messages made before a failure remain.
-/

namespace DeviceApi

/-- A store together with the messages of a run, the first message first. -/
structure Session where
  store : Store
  log : List Log.Record := []

/-- A computation that changes a store, reports and may fail half way. -/
abbrev Procedure := ExceptT Fault (StateM Session)

namespace Procedure

variable {α : Type}

/-- Runs a procedure. -/
def runOn (procedure : Procedure α) (session : Session) : Except Fault α × Session :=
  (ExceptT.run procedure).run session

/-- An edit as a procedure that reports nothing. -/
def ofEdit (edit : Edit α) : Procedure α := do
  let session ← getThe Session
  let (answer, store) := edit.runOn session.store
  set { session with store }
  match answer with
  | .ok a => return a
  | .error f => throw f

instance : MonadLift Edit Procedure := ⟨ofEdit⟩

/-- Adds a message to the log. -/
def record (message : Log.Record) : Procedure Unit :=
  modifyThe Session fun session => { session with log := session.log ++ [message] }

/-- Reports a message that belongs to no stage. -/
def report (level : Log.Level) (message : String) : Procedure Unit :=
  record { level, stage := none, message, timed := false }

/-- Runs a stage of a run and reports its beginning and its end. -/
def stage (name : String) (body : Procedure α) : Procedure α := do
  record { level := .debug, stage := some name, message := name ++ " ...", timed := false }
  try
    let a ← body
    record { level := .debug, stage := some name, message := name ++ " done", timed := true }
    return a
  catch f =>
    record { level := .error, stage := some name, message := name ++ " failed", timed := true }
    throw f

end Procedure

end DeviceApi

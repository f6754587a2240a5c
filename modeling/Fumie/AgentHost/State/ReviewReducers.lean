import Fumie.Lib.KeyedList
import Fumie.AgentHost.State.Common

/-!
# The changeset and annotations channels

State, actions and reducers of the two review channels of a session: the files
and operations of a changeset, and the annotation threads.
-/

namespace Fumie.AgentHost

open Fumie.Lib

/-! ## Changesets -/

inductive ChangesetStatus where
  | computing
  | ready
  | error
  deriving DecidableEq, Inhabited

structure ChangesetFile where
  id : String
  edit : Payload
  reviewed : Option Bool
  _meta : Option Json
  deriving DecidableEq, Inhabited

inductive ChangesetOperationStatus where
  | idle
  | running
  | error
  | disabled
  deriving DecidableEq, Inhabited

structure ChangesetOperation where
  id : String
  status : ChangesetOperationStatus
  error : Option ErrorInfo
  /-- Label, description, scopes, confirmation, icon and group. -/
  content : Payload
  deriving DecidableEq, Inhabited

structure ChangesetState where
  status : ChangesetStatus
  error : Option ErrorInfo
  files : List ChangesetFile
  operations : Option (List ChangesetOperation)
  deriving DecidableEq, Inhabited

inductive ChangesetAction where
  | statusChanged (status : ChangesetStatus) (error : Option ErrorInfo)
  | fileSet (file : ChangesetFile)
  | fileRemoved (fileId : String)
  | filesReviewChanged (files : List String) (reviewed : Bool)
  | contentChanged (files : List ChangesetFile) (operations : Option (List ChangesetOperation))
  | operationsChanged (operations : Option (List ChangesetOperation))
  | operationStatusChanged (operationId : String) (status : ChangesetOperationStatus)
      (error : Option ErrorInfo)
  | cleared
  deriving DecidableEq, Inhabited

def reviewFile (ids : List String) (reviewed : Bool) (f : ChangesetFile) : ChangesetFile :=
  if f.id ∈ ids then { f with reviewed := some reviewed } else f

def setOperationStatus (status : ChangesetOperationStatus) (error : Option ErrorInfo)
    (current : ChangesetOperation) : ChangesetOperation :=
  { current with status, error := if status = .error then error else none }

def changesetReducer (state : ChangesetState) : ChangesetAction → ChangesetState
  | .statusChanged status error =>
    { state with status, error := if status = .error then error else none }
  | .fileSet file => { state with files := upsertBy (·.id) state.files file }
  | .fileRemoved fileId =>
    match removeBy (·.id) state.files fileId with
    | none => state
    | some files => { state with files }
  | .filesReviewChanged ids reviewed =>
    { state with files := state.files.map (reviewFile ids reviewed) }
  | .contentChanged files operations =>
    match operations with
    | none => { state with files }
    | some operations => { state with files, operations := some operations }
  | .operationsChanged operations => { state with operations }
  | .operationStatusChanged operationId status error =>
    match state.operations.bind fun operations =>
        editBy (·.id) operations operationId fun o => some (setOperationStatus status error o) with
    | none => state
    | some operations => { state with operations := some operations }
  | .cleared => { state with files := [] }

/-! ## Annotations -/

structure AnnotationEntry where
  id : String
  text : StringOrMarkdown
  _meta : Option Json
  deriving DecidableEq, Inhabited

structure AnnotationOrigin where
  session : Uri
  chat : Option Uri
  turnId : Option String
  deriving DecidableEq, Inhabited

structure Annotation where
  id : String
  origin : AnnotationOrigin
  resource : Uri
  range : Option Payload
  resolved : Bool
  entries : List AnnotationEntry
  _meta : Option Json
  deriving DecidableEq, Inhabited

structure AnnotationsState where
  annotations : List Annotation
  deriving DecidableEq, Inhabited

inductive AnnotationsAction where
  | set ( annotation : Annotation)
  | updated (annotationId : String) (origin : Option AnnotationOrigin) (resource : Option Uri)
      (range : Option Payload) (resolved : Option Bool)
  | removed (annotationId : String)
  | entrySet (annotationId : String) (entry : AnnotationEntry)
  | entryRemoved (annotationId entryId : String)
  deriving DecidableEq, Inhabited

def editAnnotation (state : AnnotationsState) (annotationId : String)
    (edit : Annotation → Option Annotation) : AnnotationsState :=
  match editBy (·.id) state.annotations annotationId edit with
  | none => state
  | some annotations => { annotations }

def annotationsReducer (state : AnnotationsState) : AnnotationsAction → AnnotationsState
  | .set annotation => { annotations := upsertBy (·.id) state.annotations annotation }
  | .updated annotationId origin resource range resolved =>
    editAnnotation state annotationId fun annotation =>
      some { annotation with
        origin := origin.getD annotation.origin
        resource := resource.getD annotation.resource
        range := range.or annotation.range
        resolved := resolved.getD annotation.resolved }
  | .removed annotationId =>
    match removeBy (·.id) state.annotations annotationId with
    | none => state
    | some annotations => { annotations }
  | .entrySet annotationId entry =>
    editAnnotation state annotationId fun annotation =>
      some { annotation with entries := upsertBy (·.id) annotation.entries entry }
  | .entryRemoved annotationId entryId =>
    editAnnotation state annotationId fun annotation =>
      (removeBy (·.id) annotation.entries entryId).map fun entries => { annotation with entries }

end Fumie.AgentHost

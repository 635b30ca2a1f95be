import JaneCheck.Source.Lines
import JaneCheck.Source.Span

/-!
# Diagnostics

Problems never stop the check: each is recorded with the span it concerns, and
the check goes on. A problem has a key, which is stable, and a message.
-/

namespace JaneCheck

inductive Severity where
  | error | info
  deriving DecidableEq, Repr

def Severity.name : Severity → String
  | .error => "error"
  | .info => "info"

/-- What can be wrong. Types are given by their kinds. -/
inductive Problem where
  | unknownName (name : String)
  | nameTaken (name : String)
  | invalidType
  | notAType
  | cycle (name : String)
  | enumAsGeneric
  | takesNoGenerics
  | needsGenerics
  | tooManyGenerics
  | tooFewGenerics
  | inferenceFailed
  | inferenceConflict (name kept ignored : String)
  | instantiationLimit (name : String)
  | notConstant
  | overflow
  | divideByZero
  | operatorNotForType (op type : String)
  | operatorNotForFloat (op : String)
  | operatorNotForInt (op : String)
  | operatorNotForUint (op : String)
  | shiftMustBeUnsigned
  | logicalNotBool
  | unaryNotForType (op : String)
  | castNotSupported (source target : String)
  | incompatible (first second : String)
  | traitNeedsReference (trait : String)
  | tooManyArguments
  | missingArgument (name : String)
  | mixedVariadic
  | argumentNeedsTarget
  | argumentTaken (name : String)
  | referenceFieldUnset (name : String)
  | methodAsValue
  | genericFnAsValue
  | paramNeedsDefault (name : String)
  | variadicNotLast
  | spreadOutsideCall
  | immutableToMutable
  | lvalueRequired
  | assignToConst
  | assignToImmutable
  | typeAsValue
  | tooManyTargets
  | tooFewTargets
  | nilWithoutType
  | voidWithoutType
  | missingInitializer
  | missingConstValue
  | unused (name : String)
  | notIndexable (type : String)
  | unknownMember (name : String)
  | notCallable
  | outsideUnsafe
  | ifNeedsBool
  | whileNeedsBool
  | forNeedsEnumerable
  | tooManyLoopVars
  | returnNeedsValue
  | returnTakesNoValue
  | tooManyReturnValues
  | tooFewReturnValues
  | returnsImmutable
  | missingReturn
  | labelTaken (name : String)
  | unknownLabel (name : String)
  | gotoSkipsDeclaration (label : String)
  | breakOutside
  | continueOutside
  | invalidLabel
  | fallthroughMisplaced
  | fallthroughInLastCase
  | traitMethodMissing (trait method : String)
  | notInTrait (trait name : String)
  deriving DecidableEq, Repr

namespace Problem

def message : Problem → String
  | .unknownName name => "identifier is not exist: " ++ name
  | .nameTaken name => "identifier is already exist: " ++ name
  | .invalidType => "invalid data-type"
  | .notAType => "invalid data-type source"
  | .cycle name => "illegal cycle in declaration of " ++ name
  | .enumAsGeneric => "enums are not supports as generic types"
  | .takesNoGenerics => "generics is not supports by define"
  | .needsGenerics => "define requires generics"
  | .tooManyGenerics => "overflow generics"
  | .tooFewGenerics => "missing generics"
  | .inferenceFailed => "dynamic generic type annotation failed"
  | .inferenceConflict name kept ignored =>
    "generic " ++ name ++ " inferred as " ++ kept ++ ", ignoring " ++ ignored
  | .instantiationLimit name => "instantiation of " ++ name ++ " exceeds the nesting limit"
  | .notConstant => "expressions is not constant expression"
  | .overflow => "overflow the limit of data-type"
  | .divideByZero => "divide by zero"
  | .operatorNotForType op type => op ++ " operator is not defined for " ++ type ++ " type"
  | .operatorNotForFloat op => op ++ " operator is not defined for float type(s)"
  | .operatorNotForInt op => op ++ " operator is not defined for integer type(s)"
  | .operatorNotForUint op => op ++ " operator is not defined for unsigned integer type(s)"
  | .shiftMustBeUnsigned => "bit shifting value is must be unsigned"
  | .logicalNotBool => "logical expression is have only boolean type values"
  | .unaryNotForType op => "invalid data-type for unary " ++ op ++ " operator"
  | .castNotSupported source target =>
    source ++ " data-type not supports casting to " ++ target ++ " data-type"
  | .incompatible first second => first ++ " and " ++ second ++ " data-types are not compatible"
  | .traitNeedsReference trait =>
    "trait " ++ trait ++ " has reference receiver methods, value must be a reference"
  | .tooManyArguments => "argument overflow"
  | .missingArgument name => "missing expression for " ++ name
  | .mixedVariadic => "variadic argument can't use with more argument"
  | .argumentNeedsTarget => "argument must target to parameter"
  | .argumentTaken name => name ++ " already has expression"
  | .referenceFieldUnset name => "reference field must be initialized: " ++ name
  | .methodAsValue => "methods cannot be used as anonymous function"
  | .genericFnAsValue => "generic functions cannot be used as anonymous function"
  | .paramNeedsDefault name => "parameter " ++ name ++ " must have a default argument"
  | .variadicNotLast => "variadic parameter can only be last parameter"
  | .spreadOutsideCall => "variadic spread is only valid as a call argument"
  | .immutableToMutable => "non-mutable value cannot be assigned to a mutable slot"
  | .lvalueRequired => "lvalue required assignment"
  | .assignToConst => "constants is can't assign"
  | .assignToImmutable => "value is not mutable"
  | .typeAsValue => "type is not support assignment"
  | .tooManyTargets => "overflow multi assignment identifers"
  | .tooFewTargets => "missing identifier(s) for multiple assignment"
  | .nilWithoutType => "nil is cannot use with auto-type definitions"
  | .voidWithoutType => "void data is cannot use for auto-type definitions"
  | .missingInitializer => "auto-type declarations should have a initializer"
  | .missingConstValue => "constants must have value specification"
  | .unused name => name ++ " declared but not used"
  | .notIndexable type => type ++ " data type is not support indexing"
  | .unknownMember name => "object is not have sub field in this identifier: " ++ name
  | .notCallable => "value is not function"
  | .outsideUnsafe => "unsafe behavior at out of unsafe scope"
  | .ifNeedsBool => "if conditions must be have boolean expression"
  | .whileNeedsBool => "while iterations must be have boolean expression"
  | .forNeedsEnumerable => "foreach iterations must be have enumerable expression"
  | .tooManyLoopVars => "foreach variables can be maximum two"
  | .returnNeedsValue => "return statements of non-void functions should have return value"
  | .returnTakesNoValue => "void functions is cannot returns any value"
  | .tooManyReturnValues => "overflow return expressions"
  | .tooFewReturnValues => "missing return values for multi return"
  | .returnsImmutable => "mutable typed return value must be mutable"
  | .missingReturn => "missing return at end of function"
  | .labelTaken name => "label is already exist in this identifier: " ++ name
  | .unknownLabel name => "not exist any label in this identifier: " ++ name
  | .gotoSkipsDeclaration label => "goto " ++ label ++ " jumps over declaration(s)"
  | .breakOutside => "break keyword is cannot used at out of valid scope"
  | .continueOutside => "continue keyword is cannot used at out of iter block"
  | .invalidLabel => "invalid label"
  | .fallthroughMisplaced => "fallthrough keyword can only useable at end of the case scopes"
  | .fallthroughInLastCase => "fallthrough cannot useable at final case"
  | .traitMethodMissing trait method =>
    "not implemented " ++ trait ++ " trait's " ++ method ++ " define"
  | .notInTrait trait name => trait ++ " trait is not have this identifier: " ++ name

def key : Problem → String
  | .unknownName .. => "id_not_exist"
  | .nameTaken .. => "exist_id"
  | .invalidType => "invalid_type"
  | .notAType => "invalid_type_source"
  | .cycle .. => "illegal_cycle_in_declaration"
  | .enumAsGeneric => "enum_not_supports_as_generic"
  | .takesNoGenerics => "generics_not_supports"
  | .needsGenerics => "has_generics"
  | .tooManyGenerics => "generics_overflow"
  | .tooFewGenerics => "missing_generics"
  | .inferenceFailed => "dynamic_generic_annotation_failed"
  | .inferenceConflict .. => "generic_inference_conflict"
  | .instantiationLimit .. => "instantiation_limit"
  | .notConstant => "expr_not_const"
  | .overflow => "overflow_limits"
  | .divideByZero => "divide_by_zero"
  | .operatorNotForType .. => "operator_not_for_janetype"
  | .operatorNotForFloat .. => "operator_not_for_float"
  | .operatorNotForInt .. => "operator_not_for_int"
  | .operatorNotForUint .. => "operator_not_for_uint"
  | .shiftMustBeUnsigned => "bitshift_must_unsigned"
  | .logicalNotBool => "logical_not_bool"
  | .unaryNotForType .. => "invalid_type_unary_operator"
  | .castNotSupported .. => "type_not_supports_casting_to"
  | .incompatible .. => "incompatible_types"
  | .traitNeedsReference .. => "trait_has_reference_parametered_function"
  | .tooManyArguments => "argument_overflow"
  | .missingArgument .. => "missing_expr_for"
  | .mixedVariadic => "more_args_with_variadiced"
  | .argumentNeedsTarget => "argument_must_target_to_parameter"
  | .argumentTaken .. => "already_has_expr"
  | .referenceFieldUnset .. => "reference_field_not_initialized"
  | .methodAsValue => "method_as_anonymous_fn"
  | .genericFnAsValue => "genericed_fn_as_anonymous_fn"
  | .paramNeedsDefault .. => "param_must_have_default_arg"
  | .variadicNotLast => "variadic_parameter_not_last"
  | .spreadOutsideCall => "variadic_with_non_variadicable"
  | .immutableToMutable => "assignment_non_mut_to_mut"
  | .lvalueRequired => "assign_require_lvalue"
  | .assignToConst => "assign_const"
  | .assignToImmutable => "assignment_to_non_mut"
  | .typeAsValue => "assign_type_not_support_value"
  | .tooManyTargets => "overflow_multi_assign_identifiers"
  | .tooFewTargets => "missing_multi_assign_identifiers"
  | .nilWithoutType => "nil_for_autotype"
  | .voidWithoutType => "void_for_autotype"
  | .missingInitializer => "missing_autotype_value"
  | .missingConstValue => "missing_const_value"
  | .unused .. => "declared_but_not_used"
  | .notIndexable .. => "not_supports_indexing"
  | .unknownMember .. => "obj_have_not_id"
  | .notCallable => "not_function_call"
  | .outsideUnsafe => "unsafe_behavior_at_out_of_unsafe_scope"
  | .ifNeedsBool => "if_require_bool_expr"
  | .whileNeedsBool => "iter_while_require_bool_expr"
  | .forNeedsEnumerable => "iter_foreach_require_enumerable_expr"
  | .tooManyLoopVars => "much_foreach_vars"
  | .returnNeedsValue => "require_return_value"
  | .returnTakesNoValue => "void_function_return_value"
  | .tooManyReturnValues => "overflow_return"
  | .tooFewReturnValues => "missing_multi_return"
  | .returnsImmutable => "ret_with_mut_typed_non_mut"
  | .missingReturn => "missing_ret"
  | .labelTaken .. => "label_exist"
  | .unknownLabel .. => "label_not_exist"
  | .gotoSkipsDeclaration .. => "goto_jumps_declarations"
  | .breakOutside => "break_at_out_of_valid_scope"
  | .continueOutside => "continue_at_out_of_valid_scope"
  | .invalidLabel => "invalid_label"
  | .fallthroughMisplaced => "fallthrough_wrong_use"
  | .fallthroughInLastCase => "fallthrough_into_final_case"
  | .traitMethodMissing .. => "not_impl_trait_def"
  | .notInTrait .. => "trait_hasnt_id"

/-- Only a conflict between inferred types is no error. -/
def severity : Problem → Severity
  | .inferenceConflict .. => .info
  | _ => .error

end Problem

structure Diagnostic where
  problem : Problem
  span : Span
  deriving DecidableEq, Repr

namespace Diagnostic

def isError (d : Diagnostic) : Bool := d.problem.severity == .error

/-- Order of a report: by span, then by key. -/
def le (a b : Diagnostic) : Bool :=
  if a.span = b.span then !(b.problem.key < a.problem.key) else a.span.le b.span

end Diagnostic

/-- `path:row:column message`. -/
def positioned (path : String) (lines : Lines) (offset : Nat) (message : String) : String :=
  let (row, column) := lines.position offset
  path ++ ":" ++ toString row ++ ":" ++ toString column ++ " " ++ message

end JaneCheck

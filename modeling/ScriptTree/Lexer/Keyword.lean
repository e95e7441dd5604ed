import ScriptTree.Kind
import ScriptTree.Text.Letter

/-!
Reserved words. They are matched as whole words and without regard to case.
-/

namespace ScriptTree

def keywords : List (String × Kind) :=
  [("class", .classKw), ("struct", .structKw), ("enum", .enumKw), ("const", .constKw),
   ("extend", .extendKw), ("mixin", .mixinKw), ("states", .statesKw), ("default", .defaultKw),
   ("property", .propertyKw), ("flagdef", .flagdefKw), ("replaces", .replacesKw),
   ("native", .nativeKw), ("abstract", .abstractKw), ("final", .finalKw), ("sealed", .sealedKw),
   ("play", .playKw), ("ui", .uiKw), ("clearscope", .clearscopeKw),
   ("virtualscope", .virtualscopeKw), ("static", .staticKw), ("private", .privateKw),
   ("protected", .protectedKw), ("meta", .metaKw), ("readonly", .readonlyKw),
   ("transient", .transientKw), ("internal", .internalKw), ("deprecated", .deprecatedKw),
   ("version", .versionKw), ("action", .actionKw), ("virtual", .virtualKw),
   ("override", .overrideKw), ("vararg", .varargKw), ("var", .varKw), ("in", .inKw),
   ("out", .outKw), ("if", .ifKw), ("else", .elseKw), ("switch", .switchKw), ("case", .caseKw),
   ("while", .whileKw), ("do", .doKw), ("until", .untilKw), ("for", .forKw),
   ("foreach", .foreachKw), ("return", .returnKw), ("break", .breakKw),
   ("continue", .continueKw), ("true", .trueKw), ("false", .falseKw), ("null", .nullKw),
   ("self", .selfKw), ("super", .superKw), ("let", .letKw), ("sizeof", .sizeofKw),
   ("alignof", .alignofKw), ("cross", .crossKw), ("dot", .dotKw), ("is", .isKw),
   ("new", .newKw)]

/-- The kind of a reserved word, whatever the case of its letters. -/
def keyword? (word : String) : Option Kind :=
  keywords.lookup (Text.lower word)

end ScriptTree

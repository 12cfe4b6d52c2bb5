/-! The description of pattern strings for those who write them, and the characters of pattern
strings as regular expressions. -/
namespace ObjectQuery.Pattern

def guide : String :=
"A pattern string is a sequence of pattern specifications. Each specification
is a relation character, an object type, an optional ID list and an optional
matching scope. In ABNF:

    whitespace = %x09-0d / %x20
                        ; Whitespace characters
    relation = \">\" /    ; Children of the types on the left,
                        ; or root types if there is nothing on the left
               \"<\"      ; Parents of the types on the left
    type = name /       ; A parent/child type with the specified name
           \"*\"          ; The furthest parents/children of the types on the
                        ; left, or those types themselves if they have none.
                        ; Never returns to a type already traversed by the
                        ; same specification, so cycles end where they close.
    name_char = %x30-39 / %x61-7a / \"_\"
                        ; Lower-case letters, digits, underscore
    name = 1*name_char  ; Type name
    id_field_unquoted_char = %x30-39 / %x41-5a / %x61-7a /
                             \"_\" / \":\" / \"/\" / \".\" / \"?\" / \"%\" / \"+\" / \"-\"
                        ; Characters allowed in unquoted ID fields
    id_field_quoted_token = (%x20-21 / %x23-5b / %x5d-7e) /
                            \"\\\" (%x22 / %x5c)
                        ; Printable characters except doublequote and
                        ; backslash, or a backslash-escaped doublequote or
                        ; backslash
    id_field = 1*id_field_unquoted_char /
               %x22 *id_field_quoted_token %x22
                        ; Unquoted or quoted ID field
    id = id_field *(*whitespace \",\" *whitespace id_field)
                        ; ID: a sequence of ID fields
    id_list = id *(*whitespace \";\" *whitespace id)
                        ; A list of IDs
    spec = \"%\" /        ; ID list placeholder. Takes the next ID list from
                        ; the separately supplied list of ID lists and
                        ; limits every type traversed by this specification
                        ; to it. Not allowed if no such list is supplied.
           \"[\" *whitespace id_list *whitespace \"]\"
                        ; Inline ID list
    match = \"#\" /       ; Match objects of every type traversed by this
                        ; specification
            \"$\"         ; Match objects of only the furthest types traversed
                        ; by this specification
    pattern = *whitespace relation *whitespace type
              [*whitespace spec] [*whitespace match]
    pattern_string = 1*pattern *whitespace

Examples:
    >build%#            Builds with IDs from the first of the separately
                        supplied ID lists.
    >build%$            The same.
    >build[redhat:1077837]
                        The build with ID \"redhat:1077837\" (not matched).
    >build[redhat:1077837]#
                        Match the build with ID \"redhat:1077837\".
    >checkout%>build#   Builds of the checkouts with IDs from the first
                        separately supplied ID list.
    >test%<build#       Builds of the tests with IDs from the first
                        separately supplied ID list.
    >test[redhat:1077834_0; redhat:1077834_1]<build#
                        Builds of the tests with IDs \"redhat:1077834_0\" and
                        \"redhat:1077834_1\".
    >test%<*#           Tests with IDs from the first separately supplied
                        ID list, and all their parents.
    >test%<*$           Only the furthest parents of those tests, or the
                        tests themselves if they have no parent types.
    >revision%#>*#      Revisions with IDs from the first separately
                        supplied ID list, and all their children.
    >revision[c763deac7ff, 932e2d61add]#>*#
                        The revision with ID (c763deac7ff, 932e2d61add) and
                        all its children.
    >test%<*$>*#        The root objects containing the tests with IDs from
                        the first separately supplied ID list, along with all
                        their children.
    >*#                 Everything in the database.
    >*$                 Objects of all childless types.
"

/-- What those who write pattern strings on a command line have to know besides. -/
def commandLineNote : String :=
"NOTE: Specifying object ID lists separately is not supported using
      command-line tools. Only inline ID lists are supported.
"

def blankExpression : String := "[\\x09-\\x0d\\x20]"
def bareExpression : String := "[0-9A-Za-z_:/.?%+-]+"
def plainExpression : String := "[\\x20-\\x21\\x23-\\x5b\\x5d-\\x7e]"
def escapedExpression : String := "[\"\\\\]"

end ObjectQuery.Pattern

/-! The C text of the stack machine, which every program is compiled with: a header and a
source, line by line. -/
namespace StackLang.Support

def headerLines : List String :=
  ["#ifndef QD_BASE_H",
    "#define QD_BASE_H",
    "",
    "#include <stdarg.h>",
    "#include <stdint.h>",
    "",
    "#ifndef QD_STACK_DEPTH",
    "#define QD_STACK_DEPTH 1024",
    "#endif",
    "",
    "#ifndef QD_MARK_STACK_DEPTH",
    "#define QD_MARK_STACK_DEPTH 64",
    "#endif",
    "",
    "#ifndef __qd_real_t",
    "#define __qd_real_t double",
    "#endif",
    "",
    "#ifndef QD_STRING_LENGTH",
    "#define QD_STRING_LENGTH 1024",
    "#endif",
    "",
    "#define QD_REDUCE_ADD 0",
    "#define QD_REDUCE_SUB 1",
    "#define QD_REDUCE_MUL 2",
    "#define QD_REDUCE_DIV 3",
    "",
    "extern __qd_real_t __qd_stack[QD_STACK_DEPTH];",
    "extern int __qd_stack_ptr;",
    "",
    "void __qd_panic_stack_underflow(void);",
    "void __qd_panic_stack_overflow(void);",
    "void __qd_panic_mark_overflow(void);",
    "",
    "void __qd_arg_push(__qd_real_t value);",
    "__qd_real_t __qd_arg_pop(void);",
    "void __qd_push_va(int argc, va_list args);",
    "int __qd_pop_string(char* buffer, int size);",
    "void __qd_reduce(int op);",
    "",
    "#define QD_PRIMITIVE(name) void __qd_##name(int argc, ...)",
    "",
    "/* arithmetic */",
    "QD_PRIMITIVE(add);",
    "QD_PRIMITIVE(sub);",
    "QD_PRIMITIVE(mul);",
    "QD_PRIMITIVE(div);",
    "QD_PRIMITIVE(mod);",
    "QD_PRIMITIVE(neg);",
    "QD_PRIMITIVE(inc);",
    "QD_PRIMITIVE(dec);",
    "QD_PRIMITIVE(abs);",
    "",
    "/* comparison and logic */",
    "QD_PRIMITIVE(eq);",
    "QD_PRIMITIVE(neq);",
    "QD_PRIMITIVE(gt);",
    "QD_PRIMITIVE(gte);",
    "QD_PRIMITIVE(lt);",
    "QD_PRIMITIVE(lte);",
    "QD_PRIMITIVE(within);",
    "QD_PRIMITIVE(and);",
    "QD_PRIMITIVE(or);",
    "QD_PRIMITIVE(not);",
    "QD_PRIMITIVE(xor);",
    "",
    "/* stack */",
    "QD_PRIMITIVE(push);",
    "QD_PRIMITIVE(pop);",
    "QD_PRIMITIVE(drop);",
    "QD_PRIMITIVE(drop2);",
    "QD_PRIMITIVE(dup);",
    "QD_PRIMITIVE(dup2);",
    "QD_PRIMITIVE(dupd);",
    "QD_PRIMITIVE(swap);",
    "QD_PRIMITIVE(swap2);",
    "QD_PRIMITIVE(swapd);",
    "QD_PRIMITIVE(over);",
    "QD_PRIMITIVE(over2);",
    "QD_PRIMITIVE(nip);",
    "QD_PRIMITIVE(tuck);",
    "QD_PRIMITIVE(rot);",
    "QD_PRIMITIVE(pick);",
    "QD_PRIMITIVE(roll);",
    "QD_PRIMITIVE(clear);",
    "QD_PRIMITIVE(depth);",
    "QD_PRIMITIVE(mark);",
    "",
    "/* math */",
    "QD_PRIMITIVE(sin);",
    "QD_PRIMITIVE(cos);",
    "QD_PRIMITIVE(tan);",
    "QD_PRIMITIVE(asin);",
    "QD_PRIMITIVE(acos);",
    "QD_PRIMITIVE(atan);",
    "QD_PRIMITIVE(sqrt);",
    "QD_PRIMITIVE(cbrt);",
    "QD_PRIMITIVE(sq);",
    "QD_PRIMITIVE(cb);",
    "QD_PRIMITIVE(ceil);",
    "QD_PRIMITIVE(floor);",
    "QD_PRIMITIVE(round);",
    "QD_PRIMITIVE(ln);",
    "QD_PRIMITIVE(log10);",
    "QD_PRIMITIVE(exp);",
    "QD_PRIMITIVE(pow);",
    "QD_PRIMITIVE(min);",
    "QD_PRIMITIVE(max);",
    "QD_PRIMITIVE(inv);",
    "QD_PRIMITIVE(fac);",
    "",
    "/* I/O */",
    "QD_PRIMITIVE(print);",
    "QD_PRIMITIVE(printv);",
    "QD_PRIMITIVE(prints);",
    "QD_PRIMITIVE(printsv);",
    "QD_PRIMITIVE(nl);",
    "QD_PRIMITIVE(read);",
    "",
    "/* control */",
    "QD_PRIMITIVE(error);",
    "",
    "#endif"]

def machineLines : List String :=
  ["#include <math.h>",
    "#include <stdio.h>",
    "#include <stdlib.h>",
    "",
    "#include \"qd_base.h\"",
    "",
    "__qd_real_t __qd_stack[QD_STACK_DEPTH] = \x7b0\x7d;",
    "int __qd_stack_ptr = 0;",
    "",
    "static int __qd_mark_stack[QD_MARK_STACK_DEPTH] = \x7b0\x7d;",
    "static int __qd_mark_ptr = 0;",
    "",
    "void __qd_panic_stack_underflow(void) \x7b",
    "\tfprintf(stderr, \"panic: stack underflow\\n\");",
    "\texit(1);",
    "\x7d",
    "",
    "void __qd_panic_stack_overflow(void) \x7b",
    "\tfprintf(stderr, \"panic: stack overflow\\n\");",
    "\texit(1);",
    "\x7d",
    "",
    "void __qd_panic_mark_overflow(void) \x7b",
    "\tfprintf(stderr, \"panic: mark stack overflow\\n\");",
    "\texit(1);",
    "\x7d",
    "",
    "void __qd_arg_push(__qd_real_t value) \x7b",
    "\tif (__qd_stack_ptr >= QD_STACK_DEPTH) \x7b",
    "\t\t__qd_panic_stack_overflow();",
    "\t\x7d",
    "\t__qd_stack[__qd_stack_ptr++] = value;",
    "\x7d",
    "",
    "__qd_real_t __qd_arg_pop(void) \x7b",
    "\tif (__qd_stack_ptr <= 0) \x7b",
    "\t\t__qd_panic_stack_underflow();",
    "\t\x7d",
    "\treturn __qd_stack[--__qd_stack_ptr];",
    "\x7d",
    "",
    "void __qd_push_va(int argc, va_list args) \x7b",
    "\tfor (int i = 0; i < argc; ++i) \x7b",
    "\t\t__qd_arg_push(va_arg(args, __qd_real_t));",
    "\t\x7d",
    "\x7d",
    "",
    "#define QD_PUSH_ARGS(argc) \\",
    "\tdo \x7b \\",
    "\t\tva_list args; \\",
    "\t\tva_start(args, argc); \\",
    "\t\t__qd_push_va(argc, args); \\",
    "\t\tva_end(args); \\",
    "\t\x7d while (0)",
    "",
    "#define QD_REQUIRE(n) \\",
    "\tdo \x7b \\",
    "\t\tif (__qd_stack_ptr < (n)) \x7b \\",
    "\t\t\t__qd_panic_stack_underflow(); \\",
    "\t\t\x7d \\",
    "\t\x7d while (0)",
    "",
    "#define QD_TOP(i) __qd_stack[__qd_stack_ptr - 1 - (i)]",
    "",
    "#define QD_UNARY(name, expr) \\",
    "\tQD_PRIMITIVE(name) \x7b \\",
    "\t\tQD_PUSH_ARGS(argc); \\",
    "\t\tQD_REQUIRE(1); \\",
    "\t\t__qd_real_t a = QD_TOP(0); \\",
    "\t\tQD_TOP(0) = (expr); \\",
    "\t\x7d",
    "",
    "#define QD_BINARY(name, expr) \\",
    "\tQD_PRIMITIVE(name) \x7b \\",
    "\t\tQD_PUSH_ARGS(argc); \\",
    "\t\tQD_REQUIRE(2); \\",
    "\t\t__qd_real_t b = __qd_arg_pop(); \\",
    "\t\t__qd_real_t a = QD_TOP(0); \\",
    "\t\tQD_TOP(0) = (expr); \\",
    "\t\x7d",
    "",
    "/*",
    " * Strings are pushed as: count, one cell per character, 0.",
    " * Returns the number of characters copied into buffer.",
    " */",
    "int __qd_pop_string(char* buffer, int size) \x7b",
    "\tQD_REQUIRE(2);",
    "\tif (QD_TOP(0) != 0) \x7b",
    "\t\tbuffer[0] = '\\0';",
    "\t\treturn 0;",
    "\t\x7d",
    "\tint count = -1;",
    "\tfor (int k = 0; k <= __qd_stack_ptr - 2; ++k) \x7b",
    "\t\tif (QD_TOP(k + 1) == (__qd_real_t)k) \x7b",
    "\t\t\tcount = k;",
    "\t\t\tbreak;",
    "\t\t\x7d",
    "\t\x7d",
    "\tif (count < 0) \x7b",
    "\t\t__qd_panic_stack_underflow();",
    "\t\x7d",
    "\tint base = __qd_stack_ptr - 2 - count;",
    "\tint length = 0;",
    "\tfor (int i = 0; i < count && length < size - 1; ++i) \x7b",
    "\t\tbuffer[length++] = (char)__qd_stack[base + 1 + i];",
    "\t\x7d",
    "\tbuffer[length] = '\\0';",
    "\t__qd_stack_ptr = base;",
    "\treturn length;",
    "\x7d",
    "",
    "void __qd_reduce(int op) \x7b",
    "\tint base = 0;",
    "\tif (__qd_mark_ptr > 0) \x7b",
    "\t\tbase = __qd_mark_stack[--__qd_mark_ptr];",
    "\t\x7d",
    "\tif (base > __qd_stack_ptr) \x7b",
    "\t\t__qd_panic_stack_underflow();",
    "\t\x7d",
    "\tif (base == __qd_stack_ptr) \x7b",
    "\t\t__qd_arg_push(op == QD_REDUCE_MUL || op == QD_REDUCE_DIV ? 1 : 0);",
    "\t\treturn;",
    "\t\x7d",
    "\t__qd_real_t acc = __qd_stack[base];",
    "\tfor (int i = base + 1; i < __qd_stack_ptr; ++i) \x7b",
    "\t\tswitch (op) \x7b",
    "\t\tcase QD_REDUCE_ADD: acc += __qd_stack[i]; break;",
    "\t\tcase QD_REDUCE_SUB: acc -= __qd_stack[i]; break;",
    "\t\tcase QD_REDUCE_MUL: acc *= __qd_stack[i]; break;",
    "\t\tcase QD_REDUCE_DIV: acc /= __qd_stack[i]; break;",
    "\t\t\x7d",
    "\t\x7d",
    "\t__qd_stack_ptr = base;",
    "\t__qd_arg_push(acc);",
    "\x7d",
    ""]

def arithmeticLines : List String :=
  ["/* arithmetic */",
    "QD_BINARY(add, a + b)",
    "QD_BINARY(sub, a - b)",
    "QD_BINARY(mul, a * b)",
    "QD_BINARY(div, a / b)",
    "QD_BINARY(mod, fmod(a, b))",
    "QD_UNARY(neg, -a)",
    "QD_UNARY(inc, a + 1)",
    "QD_UNARY(dec, a - 1)",
    "QD_UNARY(abs, fabs(a))",
    "",
    "/* comparison and logic */",
    "QD_BINARY(eq, a == b)",
    "QD_BINARY(neq, a != b)",
    "QD_BINARY(gt, a > b)",
    "QD_BINARY(gte, a >= b)",
    "QD_BINARY(lt, a < b)",
    "QD_BINARY(lte, a <= b)",
    "QD_BINARY(and, a != 0 && b != 0)",
    "QD_BINARY(or, a != 0 || b != 0)",
    "QD_BINARY(xor, (a != 0) != (b != 0))",
    "QD_UNARY(not, a == 0)",
    "",
    "QD_PRIMITIVE(within) \x7b",
    "\tQD_PUSH_ARGS(argc);",
    "\tQD_REQUIRE(3);",
    "\t__qd_real_t hi = __qd_arg_pop();",
    "\t__qd_real_t lo = __qd_arg_pop();",
    "\t__qd_real_t a = QD_TOP(0);",
    "\tQD_TOP(0) = lo <= a && a <= hi;",
    "\x7d",
    ""]

def stackLines : List String :=
  ["/* stack */",
    "QD_PRIMITIVE(push) \x7b",
    "\tQD_PUSH_ARGS(argc);",
    "\x7d",
    "",
    "QD_PRIMITIVE(pop) \x7b",
    "\tQD_PUSH_ARGS(argc);",
    "\t__qd_arg_pop();",
    "\x7d",
    "",
    "QD_PRIMITIVE(drop) \x7b",
    "\tQD_PUSH_ARGS(argc);",
    "\t__qd_arg_pop();",
    "\x7d",
    "",
    "QD_PRIMITIVE(drop2) \x7b",
    "\tQD_PUSH_ARGS(argc);",
    "\tQD_REQUIRE(2);",
    "\t__qd_stack_ptr -= 2;",
    "\x7d",
    "",
    "QD_PRIMITIVE(dup) \x7b",
    "\tQD_PUSH_ARGS(argc);",
    "\tQD_REQUIRE(1);",
    "\t__qd_arg_push(QD_TOP(0));",
    "\x7d",
    "",
    "QD_PRIMITIVE(dup2) \x7b",
    "\tQD_PUSH_ARGS(argc);",
    "\tQD_REQUIRE(2);",
    "\t__qd_real_t a = QD_TOP(1);",
    "\t__qd_real_t b = QD_TOP(0);",
    "\t__qd_arg_push(a);",
    "\t__qd_arg_push(b);",
    "\x7d",
    "",
    "QD_PRIMITIVE(dupd) \x7b",
    "\tQD_PUSH_ARGS(argc);",
    "\tQD_REQUIRE(2);",
    "\t__qd_real_t b = __qd_arg_pop();",
    "\t__qd_arg_push(QD_TOP(0));",
    "\t__qd_arg_push(b);",
    "\x7d",
    "",
    "QD_PRIMITIVE(swap) \x7b",
    "\tQD_PUSH_ARGS(argc);",
    "\tQD_REQUIRE(2);",
    "\t__qd_real_t t = QD_TOP(0);",
    "\tQD_TOP(0) = QD_TOP(1);",
    "\tQD_TOP(1) = t;",
    "\x7d",
    "",
    "QD_PRIMITIVE(swap2) \x7b",
    "\tQD_PUSH_ARGS(argc);",
    "\tQD_REQUIRE(4);",
    "\tfor (int i = 0; i < 2; ++i) \x7b",
    "\t\t__qd_real_t t = QD_TOP(i);",
    "\t\tQD_TOP(i) = QD_TOP(i + 2);",
    "\t\tQD_TOP(i + 2) = t;",
    "\t\x7d",
    "\x7d",
    "",
    "QD_PRIMITIVE(swapd) \x7b",
    "\tQD_PUSH_ARGS(argc);",
    "\tQD_REQUIRE(3);",
    "\t__qd_real_t t = QD_TOP(1);",
    "\tQD_TOP(1) = QD_TOP(2);",
    "\tQD_TOP(2) = t;",
    "\x7d",
    "",
    "QD_PRIMITIVE(over) \x7b",
    "\tQD_PUSH_ARGS(argc);",
    "\tQD_REQUIRE(2);",
    "\t__qd_arg_push(QD_TOP(1));",
    "\x7d",
    "",
    "QD_PRIMITIVE(over2) \x7b",
    "\tQD_PUSH_ARGS(argc);",
    "\tQD_REQUIRE(4);",
    "\t__qd_real_t a = QD_TOP(3);",
    "\t__qd_real_t b = QD_TOP(2);",
    "\t__qd_arg_push(a);",
    "\t__qd_arg_push(b);",
    "\x7d",
    "",
    "QD_PRIMITIVE(nip) \x7b",
    "\tQD_PUSH_ARGS(argc);",
    "\tQD_REQUIRE(2);",
    "\t__qd_real_t b = __qd_arg_pop();",
    "\tQD_TOP(0) = b;",
    "\x7d",
    "",
    "QD_PRIMITIVE(tuck) \x7b",
    "\tQD_PUSH_ARGS(argc);",
    "\tQD_REQUIRE(2);",
    "\t__qd_real_t b = __qd_arg_pop();",
    "\t__qd_real_t a = __qd_arg_pop();",
    "\t__qd_arg_push(b);",
    "\t__qd_arg_push(a);",
    "\t__qd_arg_push(b);",
    "\x7d",
    "",
    "QD_PRIMITIVE(rot) \x7b",
    "\tQD_PUSH_ARGS(argc);",
    "\tQD_REQUIRE(3);",
    "\t__qd_real_t a = QD_TOP(2);",
    "\tQD_TOP(2) = QD_TOP(1);",
    "\tQD_TOP(1) = QD_TOP(0);",
    "\tQD_TOP(0) = a;",
    "\x7d",
    "",
    "QD_PRIMITIVE(pick) \x7b",
    "\tQD_PUSH_ARGS(argc);",
    "\tint n = (int)__qd_arg_pop();",
    "\tif (n < 0 || n >= __qd_stack_ptr) \x7b",
    "\t\t__qd_panic_stack_underflow();",
    "\t\x7d",
    "\t__qd_arg_push(QD_TOP(n));",
    "\x7d",
    "",
    "QD_PRIMITIVE(roll) \x7b",
    "\tQD_PUSH_ARGS(argc);",
    "\tint n = (int)__qd_arg_pop();",
    "\tif (n < 0 || n >= __qd_stack_ptr) \x7b",
    "\t\t__qd_panic_stack_underflow();",
    "\t\x7d",
    "\t__qd_real_t value = QD_TOP(n);",
    "\tfor (int i = n; i > 0; --i) \x7b",
    "\t\tQD_TOP(i) = QD_TOP(i - 1);",
    "\t\x7d",
    "\tQD_TOP(0) = value;",
    "\x7d",
    "",
    "QD_PRIMITIVE(clear) \x7b",
    "\tQD_PUSH_ARGS(argc);",
    "\t__qd_stack_ptr = 0;",
    "\t__qd_mark_ptr = 0;",
    "\x7d",
    "",
    "QD_PRIMITIVE(depth) \x7b",
    "\tQD_PUSH_ARGS(argc);",
    "\t__qd_arg_push((__qd_real_t)__qd_stack_ptr);",
    "\x7d",
    "",
    "QD_PRIMITIVE(mark) \x7b",
    "\tQD_PUSH_ARGS(argc);",
    "\tif (__qd_mark_ptr >= QD_MARK_STACK_DEPTH) \x7b",
    "\t\t__qd_panic_mark_overflow();",
    "\t\x7d",
    "\t__qd_mark_stack[__qd_mark_ptr++] = __qd_stack_ptr;",
    "\x7d",
    ""]

def functionLines : List String :=
  ["/* math */",
    "QD_UNARY(sin, sin(a))",
    "QD_UNARY(cos, cos(a))",
    "QD_UNARY(tan, tan(a))",
    "QD_UNARY(asin, asin(a))",
    "QD_UNARY(acos, acos(a))",
    "QD_UNARY(atan, atan(a))",
    "QD_UNARY(sqrt, sqrt(a))",
    "QD_UNARY(cbrt, cbrt(a))",
    "QD_UNARY(sq, a * a)",
    "QD_UNARY(cb, a * a * a)",
    "QD_UNARY(ceil, ceil(a))",
    "QD_UNARY(floor, floor(a))",
    "QD_UNARY(round, round(a))",
    "QD_UNARY(ln, log(a))",
    "QD_UNARY(log10, log10(a))",
    "QD_UNARY(exp, exp(a))",
    "QD_UNARY(inv, 1 / a)",
    "QD_UNARY(fac, tgamma(a + 1))",
    "QD_BINARY(pow, pow(a, b))",
    "QD_BINARY(min, a < b ? a : b)",
    "QD_BINARY(max, a > b ? a : b)",
    ""]

def streamLines : List String :=
  ["/* I/O */",
    "QD_PRIMITIVE(print) \x7b",
    "\tQD_PUSH_ARGS(argc);",
    "\tprintf(\"%g\\n\", (double)__qd_arg_pop());",
    "\x7d",
    "",
    "QD_PRIMITIVE(printv) \x7b",
    "\tQD_PUSH_ARGS(argc);",
    "\tprintf(\"real:%g\\n\", (double)__qd_arg_pop());",
    "\x7d",
    "",
    "QD_PRIMITIVE(prints) \x7b",
    "\tQD_PUSH_ARGS(argc);",
    "\tfor (int i = 0; i < __qd_stack_ptr; ++i) \x7b",
    "\t\tprintf(i == 0 ? \"%g\" : \" %g\", (double)__qd_stack[i]);",
    "\t\x7d",
    "\tprintf(\"\\n\");",
    "\x7d",
    "",
    "QD_PRIMITIVE(printsv) \x7b",
    "\tQD_PUSH_ARGS(argc);",
    "\tprintf(\"[%d]\", __qd_stack_ptr);",
    "\tfor (int i = 0; i < __qd_stack_ptr; ++i) \x7b",
    "\t\tprintf(\" real:%g\", (double)__qd_stack[i]);",
    "\t\x7d",
    "\tprintf(\"\\n\");",
    "\x7d",
    "",
    "QD_PRIMITIVE(nl) \x7b",
    "\tQD_PUSH_ARGS(argc);",
    "\tprintf(\"\\n\");",
    "\x7d",
    "",
    "QD_PRIMITIVE(read) \x7b",
    "\tQD_PUSH_ARGS(argc);",
    "\tdouble value = 0;",
    "\tif (scanf(\"%lf\", &value) != 1) \x7b",
    "\t\tvalue = 0;",
    "\t\x7d",
    "\t__qd_arg_push((__qd_real_t)value);",
    "\x7d",
    "",
    "/* control */",
    "QD_PRIMITIVE(error) \x7b",
    "\tQD_PUSH_ARGS(argc);",
    "\tchar message[QD_STRING_LENGTH];",
    "\tif (__qd_stack_ptr >= 2 && __qd_pop_string(message, QD_STRING_LENGTH) > 0) \x7b",
    "\t\tfprintf(stderr, \"error: %s\\n\", message);",
    "\t\x7d else \x7b",
    "\t\tfprintf(stderr, \"error\\n\");",
    "\t\x7d",
    "\texit(1);",
    "\x7d"]

def sourceLines : List String :=
  machineLines ++ arithmeticLines ++ stackLines ++ functionLines ++ streamLines

def joined (lines : List String) : String :=
  lines.foldl (fun text line => text ++ line ++ "\n") ""

def header : String := joined headerLines

def source : String := joined sourceLines

end StackLang.Support
